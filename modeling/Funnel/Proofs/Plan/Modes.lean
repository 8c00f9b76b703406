import Funnel.Proofs.Entry.Conversion
import Funnel.Proofs.Metric.Reach
import Funnel.Proofs.Plan.Conservative

/-!
# Runs in both modes of conversion

Of two runs on the same events, one that counts any later entry as going on and one that counts
higher ranks only, the first converts whatever the second does. Nothing else differs.
-/

namespace Funnel

/-- The second of two results converts whatever the first does, no later, and the two differ in
nothing else. -/
structure RunOutput.ConvertsMore (output output' : RunOutput) : Prop where
  entries : List.Forall₂ Entry.ConvertsNoLater output.entries output'.entries
  metrics : List.Forall₂ Metric.GainsCompleters output.metrics output'.metrics
  sessions : Journey.ofSessions output'.entries = Journey.ofSessions output.entries
  users : Journey.ofUsers output'.entries = Journey.ofUsers output.entries
  stats : output'.stats = output.stats

namespace Plan

/-- The plan in another mode of conversion. -/
def withMode (plan : Plan) (mode : ConversionMode) : Plan where
  config := plan.config.withMode mode
  accepted := Config.check_withMode plan.accepted mode
  periodDays := plan.periodDays

variable {plan : Plan} {events : List Event} {records : List AttributeRecord}

theorem sequenced_withMode (mode : ConversionMode) :
    (plan.withMode mode).sequenced events = Entry.sequence mode (plan.filled events) := rfl

theorem sessionMap_withMode (mode : ConversionMode) (key : String × String) :
    (plan.withMode mode).sessionMap events records key = plan.sessionMap events records key := by
  rw [sessionMap_eq, sessionMap_eq]
  rfl

theorem forall₂_entries_withMode (plan : Plan) (events : List Event)
    (records : List AttributeRecord) :
    List.Forall₂ Entry.ConvertsNoLater ((plan.withMode .higherRank).entries events records)
      ((plan.withMode .anyLaterEvent).entries events records) := by
  rw [entries_eq, entries_eq, sequenced_withMode, sequenced_withMode]
  simp only [sessionMap_withMode]
  refine List.forall₂_map_left_iff.2 (List.forall₂_map_right_iff.2 ?_)
  refine (Entry.forall₂_sequence (plan.filled events)).imp fun entry entry' h => ?_
  -- both entries belong to one session, and so get the same dimensions
  have hkey : entry'.sessionKey = entry.sessionKey := by
    rw [← Entry.sessionKey_bare, h.bare_eq, Entry.sessionKey_bare]
  rw [hkey]
  exact h.withDimensions _

theorem convertsMore_withMode (plan : Plan) (events : List Event)
    (records : List AttributeRecord) :
    ((plan.withMode .higherRank).output events records).ConvertsMore
      ((plan.withMode .anyLaterEvent).output events records) := by
  let strict := (plan.withMode .higherRank).entries events records
  let lax := (plan.withMode .anyLaterEvent).entries events records
  have hentries : List.Forall₂ Entry.ConvertsNoLater strict lax :=
    plan.forall₂_entries_withMode events records
  have hbare : lax.map Entry.bare = strict.map Entry.bare := Entry.map_bare_eq hentries
  have hsessions : Journey.ofSessions lax = Journey.ofSessions strict := by
    rw [← Journey.ofSessions_map_bare, hbare, Journey.ofSessions_map_bare]
  have husers : Journey.ofUsers lax = Journey.ofUsers strict := by
    rw [← Journey.ofUsers_map_bare, hbare, Journey.ofUsers_map_bare]
  have hmetrics : List.Forall₂ Metric.GainsCompleters
      (Metric.ofEntries plan.steps plan.dimensions strict)
      (Metric.ofEntries plan.steps plan.dimensions lax) := by
    refine Metric.forall₂_gainsCompleters_ofEntries _ _ hbare fun dimensions rank => ?_
    rintro _ ⟨entry, hentry, ⟨hdimensions, hrank, hconverted⟩, rfl⟩
    obtain ⟨entry', hentry', hlike⟩ := exists_mem_of_forall₂ hentries hentry
    obtain ⟨-, -, -, -, -, -, hconverted', -⟩ := hlike.converted hconverted
    have hsame := hlike.bare_eq
    exact ⟨entry', hentry', ⟨(congrArg (fun e => e.dimensions) hsame).trans hdimensions,
      (congrArg (fun e => e.stepRank) hsame).trans hrank, hconverted'⟩,
      congrArg (fun e => e.user) hsame⟩
  refine ⟨hentries, hmetrics, hsessions, husers, ?_⟩
  -- events are counted in front of the sequence, and what follows it is as long in both runs
  unfold output
  rw [RunStats.mk.injEq]
  exact ⟨rfl, rfl, rfl, rfl, rfl, hentries.length_eq.symm, congrArg List.length hsessions,
    congrArg List.length husers, hmetrics.length_eq.symm⟩

/-- The mode of conversion touches conversion only. Of two runs on the same acceptable events, the
one in which any later entry counts has the entries and metrics of the one in which only higher
ranks count, with more conversion and nothing else changed. -/
theorem run_withMode_convertsMore (plan : Plan) (events : List Event)
    (records : List AttributeRecord) (h : firstDefect? events = none) :
    ∃ strict lax, (plan.withMode .higherRank).run events records = .ok strict ∧
      (plan.withMode .anyLaterEvent).run events records = .ok lax ∧ strict.ConvertsMore lax :=
  ⟨(plan.withMode .higherRank).output events records,
    (plan.withMode .anyLaterEvent).output events records, run_eq_ok_iff.2 ⟨h, rfl⟩,
    run_eq_ok_iff.2 ⟨h, rfl⟩, plan.convertsMore_withMode events records⟩

theorem run_checkout_convertsMore :
    firstDefect? checkoutEvents = none ∧
      ∃ strict lax, (checkout.withMode .higherRank).run checkoutEvents [] = .ok strict ∧
        (checkout.withMode .anyLaterEvent).run checkoutEvents [] = .ok lax ∧
        strict.ConvertsMore lax :=
  ⟨by decide, checkout.run_withMode_convertsMore checkoutEvents [] (by decide)⟩

end Plan

end Funnel
