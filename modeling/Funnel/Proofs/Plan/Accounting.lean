import Funnel.Proofs.Plan.Additivity
import Funnel.Proofs.Plan.Influence

/-!
# No event is lost or counted twice

Every event belongs to a step or to none. Of the events of a session one is kept for each rank that
they show and for each type that no step claims; the others are duplicates.
-/

namespace Funnel

open Std

/-- The ranks that events show, by session. -/
def shownRanks (steps : List Step) (events : List Event) : Set ((String × String) × UInt32) :=
  { cell | ∃ event ∈ events, event.Shows steps cell.1 cell.2 }

/-- The types of events that no step claims, by session. -/
def unclaimedTypes (steps : List Step) (events : List Event) :
    Set (String × String × String) :=
  { key | ∃ event ∈ events, (∀ step ∈ steps, event.eventType ∉ step.eventTypes.names) ∧
    (event.user, event.session, event.eventType) = key }

namespace Plan

variable {plan : Plan} {events : List Event} {records : List AttributeRecord}

/-- The counts of some results account for all events. -/
structure AccountsFor (plan : Plan) (events : List Event) (output : RunOutput) : Prop where
  /-- All events are counted. -/
  raw : output.stats.rawEvents = events.length
  /-- An event belongs to a step or to none. -/
  matched : output.stats.rawEvents = output.stats.matchedEvents + output.stats.unmappedEvents
  duplicates : output.stats.duplicatesRemoved ≤ output.stats.rawEvents
  /-- Of the events of a session one is kept for each rank that they show and for each type that no
  step claims. -/
  kept : output.stats.rawEvents - output.stats.duplicatesRemoved =
    (shownRanks plan.steps events).ncard + (unclaimedTypes plan.steps events).ncard
  /-- An entry is of a rank that is shown, or filled in. -/
  entries : output.stats.entries =
    (shownRanks plan.steps events).ncard + output.stats.backfilledEntries
  listed : output.stats.entries = output.entries.length
  filledIn : output.stats.backfilledEntries = output.entries.countP Entry.backfilled
  /-- A combination has a row for each step and one for the whole funnel. -/
  metrics : output.stats.metrics =
    { dimensions | dimensions ∈ output.metrics.map Metric.dimensions }.ncard *
      (plan.steps.length + 1)

/-- There are as many entries of events as ranks that the events of a session show. -/
theorem length_canonical_entries (plan : Plan) (events : List Event) :
    (plan.canonical events).entries.length = (shownRanks plan.steps events).ncard := by
  rw [length_eq_ncard (plan.nodup_cell_canonical events)]
  congr 1
  ext ⟨key, rank⟩
  constructor
  · rintro ⟨entry, hentry, hcell⟩
    obtain ⟨rfl, rfl⟩ := Prod.mk.inj hcell
    obtain ⟨event, hevent, hshows, -⟩ := (shown_of_mem_canonical hentry).1.1
    exact ⟨event, hevent, hshows⟩
  · rintro ⟨event, hevent, hshows⟩
    exact exists_mem_canonical ⟨event.occurredAt, event, hevent, hshows, rfl⟩

/-- An event of no step is named after its type. -/
theorem exists_event_of_stepRank_eq_none {classified : ClassifiedEvent}
    (h : classified ∈ plan.classified events) (hnone : classified.stepRank = none) :
    ∃ event ∈ events, (∀ step ∈ plan.steps, event.eventType ∉ step.eventTypes.names) ∧
      (event.user, event.session, event.eventType) =
        (classified.user, classified.session, classified.stepName) := by
  obtain ⟨event, hevent, rfl⟩ := mem_classified_iff.1 h
  have hresolve : Step.resolve? plan.steps event.eventType = none := by
    simpa [Event.classified] using hnone
  exact ⟨event, hevent, Step.resolve?_eq_none_iff.1 hresolve, by simp [Event.classified, hresolve]⟩

/-- There are as many events set aside as types that no step claims occur in a session. -/
theorem length_canonical_unmapped (plan : Plan) (events : List Event) :
    (plan.canonical events).unmapped.length = (unclaimedTypes plan.steps events).ncard := by
  have hmem : ∀ {classified}, classified ∈ (plan.canonical events).unmapped ↔
      classified ∈ Canonical.kept (plan.classified events) ∧ classified.stepRank = none := by
    simp [canonical, Canonical.ofEvents]
  -- without a rank, the slot of an event is its session and name
  have hnodup : ((plan.canonical events).unmapped.map fun classified =>
      (classified.user, classified.session, classified.stepName)).Nodup := by
    have hslots := ((Canonical.ascending_kept (plan.classified events)).filter
      fun classified => classified.stepRank.isNone).nodup_map
    refine List.pairwise_map.2 ((List.pairwise_map.1 hslots).imp_of_mem ?_)
    intro a b ha hb hne heq
    obtain ⟨huser, hsession, hname⟩ := by simpa using heq
    refine hne ?_
    simp only [ClassifiedEvent.slot, huser, hsession, hname, (hmem.1 ha).2, (hmem.1 hb).2]
  rw [length_eq_ncard hnodup]
  congr 1
  ext key
  constructor
  · rintro ⟨classified, hclassified, rfl⟩
    obtain ⟨hkept, hnone⟩ := hmem.1 hclassified
    exact exists_event_of_stepRank_eq_none (Canonical.mem_of_mem_kept hkept) hnone
  · rintro ⟨event, hevent, hunclaimed, rfl⟩
    have hresolve := Step.resolve?_eq_none_iff.2 hunclaimed
    obtain ⟨classified, hkept, hslot⟩ :=
      Canonical.exists_mem_kept (mem_classified_iff.2 ⟨event, hevent, rfl⟩)
    rw [hresolve] at hslot
    obtain ⟨huser, hsession, hname, hrank⟩ := by simpa [ClassifiedEvent.slot] using hslot
    exact ⟨classified, hmem.2 ⟨hkept, hrank⟩, by rw [huser, hsession, hname]; rfl⟩

theorem length_entries (plan : Plan) (events : List Event) (records : List AttributeRecord) :
    (plan.entries events records).length = (plan.filled events).length := by
  have hcells := (Entry.map_cell_sequence_perm plan.config.mode (plan.filled events)).length_eq
  rw [List.length_map, List.length_map] at hcells
  rw [entries_eq, List.length_map]
  exact hcells

theorem countP_backfilled_entries (plan : Plan) (events : List Event)
    (records : List AttributeRecord) :
    (plan.entries events records).countP Entry.backfilled =
      (plan.filled events).countP Entry.backfilled := by
  have hbare := (Entry.map_bare_sequence_perm plan.config.mode (plan.filled events)).countP_eq
    Entry.backfilled
  rw [List.countP_map, List.countP_map] at hbare
  rw [entries_eq, List.countP_map]
  exact hbare

/-- The entries that are filled in are those that are not made of events. -/
theorem length_filled (plan : Plan) (events : List Event) :
    (plan.filled events).length =
      (plan.canonical events).entries.length + (plan.filled events).countP Entry.backfilled := by
  have hplain : (plan.canonical events).entries.countP Entry.backfilled = 0 :=
    List.countP_eq_zero.2 fun entry hentry => by
      simp [(Canonical.plain_of_mem_entries hentry).2]
  unfold filled
  by_cases hfill : plan.config.backfill = true
  · have hadded : ∀ entry ∈ Entry.missing plan.steps (plan.canonical events).entries,
        entry.backfilled = true := by
      intro entry hentry
      obtain ⟨group, -, hskipped⟩ := List.mem_flatMap.1 hentry
      exact ((Entry.mem_skipped_iff plan.nodup_ranks).1 hskipped).backfilled_eq
    simp only [hfill, if_true, Entry.backfill, List.countP_append, List.length_append, hplain,
      List.countP_eq_length.2 hadded]
    omega
  · simp [hfill, hplain]

theorem accountsFor_output (plan : Plan) (events : List Event) (records : List AttributeRecord) :
    plan.AccountsFor events (plan.output events records) := by
  have hclassified : (plan.classified events).length = events.length := by
    simp [classified, classify_eq]
  -- one event is kept of each slot, and a slot is a rank of a session or a type no step claims
  have hkept : (Canonical.kept (plan.classified events)).length =
      (shownRanks plan.steps events).ncard + (unclaimedTypes plan.steps events).ncard := by
    rw [Canonical.length_kept, ← length_canonical_entries, ← length_canonical_unmapped, canonical]
  have hle := Canonical.length_kept_le (plan.classified events)
  have hduplicates : (plan.output events records).stats.duplicatesRemoved =
      (plan.classified events).length - (Canonical.kept (plan.classified events)).length := rfl
  have hbackfilled : (plan.output events records).stats.backfilledEntries =
      (plan.filled events).length - (plan.canonical events).entries.length := rfl
  have hentries : (plan.output events records).stats.entries = (plan.filled events).length :=
    plan.length_entries events records
  have hfilled := plan.length_filled events
  have hshown := plan.length_canonical_entries events
  refine ⟨rfl, ?_, ?_, ?_, ?_, rfl, ?_, ?_⟩
  · rw [matchedEvents_output]
    show events.length = _ + total
      ((Coverage.ofEvents plan.steps (plan.classified events)).unmapped.map Prod.snd)
    rw [Coverage.total_unmapped, ← hclassified]
    have hsplit := List.length_eq_countP_add_countP (l := plan.classified events)
      fun event => event.stepRank.isSome
    simpa only [Bool.not_eq_true, Option.isSome_eq_false_iff, Bool.decide_eq_true] using hsplit
  · show (plan.output events records).stats.duplicatesRemoved ≤ events.length
    omega
  · show events.length - (plan.output events records).stats.duplicatesRemoved = _
    omega
  · omega
  · rw [hbackfilled, hfilled]
    show _ = (plan.entries events records).countP Entry.backfilled
    rw [countP_backfilled_entries]
    omega
  · refine (Metric.length_aggregate _ _ _ _ _).trans ?_
    rw [← ncard_of_nodup (Metric.ascending_combinations _ _ _ _).nodup]
    congr 2
    ext dimensions
    exact Metric.mem_combinationsOf.trans Metric.mem_map_dimensions_ofEntries.symm

/-- The counts of a run on acceptable events account for all of them. -/
theorem run_accountsFor (plan : Plan) (events : List Event) (records : List AttributeRecord)
    (h : firstDefect? events = none) :
    ∃ output, plan.run events records = .ok output ∧ plan.AccountsFor events output :=
  ⟨plan.output events records, run_eq_ok_iff.2 ⟨h, rfl⟩, plan.accountsFor_output events records⟩

theorem run_checkout_accountsFor :
    firstDefect? checkoutEvents = none ∧
      ∃ output, checkout.run checkoutEvents [] = .ok output ∧
        checkout.AccountsFor checkoutEvents output :=
  ⟨by decide, checkout.run_accountsFor checkoutEvents [] (by decide)⟩

end Plan

end Funnel
