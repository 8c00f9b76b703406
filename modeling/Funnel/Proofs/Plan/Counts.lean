import Funnel.Proofs.Metric.Counts
import Funnel.Proofs.Plan.Relation

/-!
# The counts of a run

What a run counts can be read off its events: which sessions show or pass which ranks, and which
combination each of them belongs to.
-/

namespace Funnel

open Std Time

/-- An event of a session that belongs to a step. -/
def Event.Matches (steps : List Step) (key : String × String) (event : Event) : Prop :=
  (event.user, event.session) = key ∧ (Step.resolve? steps event.eventType).isSome

/-- A session has entries of a combination. -/
def Entry.Combines (entries : List Entry) (key : String × String) (dimensions : Dimensions) :
    Prop :=
  ∃ entry ∈ entries, entry.sessionKey = key ∧ entry.dimensions = dimensions

namespace Plan

variable {plan : Plan} {events : List Event} {records : List AttributeRecord}

/-- The counts of some results are those of the events. -/
structure Counts (plan : Plan) (events : List Event) (output : RunOutput) : Prop where
  /-- A session belongs to one combination. -/
  unified : ∀ key a b, Entry.Combines output.entries key a → Entry.Combines output.entries key b →
    a = b
  /-- The sessions with a combination are those with an event of some step. -/
  matched : ∀ key, (∃ dimensions, Entry.Combines output.entries key dimensions) ↔
    ∃ event ∈ events, event.Matches plan.steps key
  /-- There are metrics of the combinations of these sessions, and of the unset one if there is no
  such session. -/
  combinations : ∀ dimensions, dimensions ∈ output.metrics.map Metric.dimensions ↔
    (∃ key, Entry.Combines output.entries key dimensions) ∨
      (¬ ∃ key, ∃ event ∈ events, event.Matches plan.steps key) ∧
        Dimensions.LeavesUnset plan.dimensions dimensions
  /-- A combination has one row for every step and one for the whole funnel. -/
  rows : ∀ dimensions ∈ output.metrics.map Metric.dimensions,
    (∃! total, total ∈ output.metrics ∧ total.IsEndToEnd dimensions) ∧
      ∀ rank : UInt32, 1 ≤ rank.toNat → rank.toNat ≤ plan.steps.length →
        ∃! row, row ∈ output.metrics ∧ row.IsStage dimensions rank
  /-- A step is started by the users of the sessions that pass its rank. -/
  stage : ∀ row ∈ output.metrics, ∀ dimensions rank, row.IsStage dimensions rank →
    row.starters =
      { user | ∃ session, Entry.Combines output.entries (user, session) dimensions ∧
        plan.Passes events (user, session) rank }.ncard
  /-- The funnel is started by the users of the sessions that pass the first rank, and completed by
  those of the sessions that pass the last one as well. -/
  endToEnd : ∀ total ∈ output.metrics, ∀ dimensions, total.IsEndToEnd dimensions →
    total.starters =
      { user | ∃ session, Entry.Combines output.entries (user, session) dimensions ∧
        plan.Passes events (user, session) 1 }.ncard ∧
    total.completers =
      { user | ∃ session, Entry.Combines output.entries (user, session) dimensions ∧
        plan.Passes events (user, session) 1 ∧
        plan.Passes events (user, session) (UInt32.ofNat plan.steps.length) }.ncard

theorem exists_shown_iff {key : String × String} :
    (∃ rank, (shownTimes plan.steps events key rank).Nonempty) ↔
      ∃ event ∈ events, event.Matches plan.steps key := by
  constructor
  · rintro ⟨rank, _, event, hevent, ⟨hkey, hrank⟩, -⟩
    obtain ⟨step, hstep, -⟩ := Option.map_eq_some_iff.1 hrank
    exact ⟨event, hevent, hkey, by rw [hstep]; rfl⟩
  · rintro ⟨event, hevent, hkey, hmatch⟩
    obtain ⟨step, hstep⟩ := Option.isSome_iff_exists.1 hmatch
    exact ⟨step.rank, event.occurredAt, event, hevent, ⟨hkey, by rw [hstep]; rfl⟩, rfl⟩

theorem one_le_rank {step : Step} (h : step ∈ plan.steps) : 1 ≤ step.rank :=
  UInt32.le_iff_toNat_le.2 ((Config.exists_step_of_check plan.accepted).1 ⟨step, h, rfl⟩).1

theorem rank_le_length {step : Step} (h : step ∈ plan.steps) :
    step.rank ≤ UInt32.ofNat plan.steps.length := by
  have hlength := (Config.exists_last_step_of_check plan.accepted).1
  rw [UInt32.le_iff_toNat_le]
  exact ((Config.exists_step_of_check plan.accepted).1 ⟨step, h, rfl⟩).2.trans hlength.ge

theorem maxRank_steps (plan : Plan) :
    Step.maxRank plan.steps = UInt32.ofNat plan.steps.length :=
  Config.maxRank_of_check plan.accepted

theorem combines_entries_iff {key : String × String} {dimensions : Dimensions} :
    Entry.Combines (plan.entries events records) key dimensions ↔
      (∃ event ∈ events, event.Matches plan.steps key) ∧
        dimensions = plan.sessionMap events records key := by
  have hrelation := plan.isRelation_entries events records
  rw [← exists_shown_iff]
  constructor
  · rintro ⟨entry, hentry, rfl, rfl⟩
    refine ⟨?_, dimensions_of_mem_entries hentry⟩
    have hreaches := (hrelation.sound entry hentry).1
    generalize entry.backfilled = added at hreaches
    cases hreaches with
    | shown latest => exact ⟨_, _, latest.1⟩
    | skipped _ _ _ earliest =>
      obtain ⟨higher, -, hlatest⟩ := earliest.1
      exact ⟨higher, _, hlatest.1⟩
  · rintro ⟨⟨rank, hne⟩, rfl⟩
    obtain ⟨time, hlatest⟩ := exists_isGreatest_shownTimes hne
    obtain ⟨entry, ⟨hentry, rfl, -⟩, -⟩ := hrelation.complete key rank time false (.shown hlatest)
    exact ⟨entry, hentry, rfl, dimensions_of_mem_entries hentry⟩

theorem exists_step_of_mem_entries {entry : Entry} (h : entry ∈ plan.entries events records) :
    ∃ step ∈ plan.steps, step.rank = entry.stepRank := by
  obtain ⟨-, step, hstep, hrank, -⟩ := (plan.isRelation_entries events records).sound entry h
  exact ⟨step, hstep, hrank⟩

theorem one_le_stepRank {entry : Entry} (h : entry ∈ plan.entries events records) :
    1 ≤ entry.stepRank := by
  obtain ⟨step, hstep, hrank⟩ := exists_step_of_mem_entries h
  exact hrank ▸ one_le_rank hstep

/-- There are no more users in a combination than events. -/
theorem ncard_usersOf_le_length (plan : Plan) (events : List Event)
    (records : List AttributeRecord) (dimensions : Dimensions) :
    (Entry.usersOf (plan.entries events records) dimensions).ncard ≤ events.length := by
  have hsubset : Entry.usersOf (plan.entries events records) dimensions ⊆
      { user | user ∈ events.map Event.user } := by
    rintro _ ⟨entry, hentry, -, rfl⟩
    obtain ⟨⟨event, hevent, hkey, -⟩, -⟩ := combines_entries_iff.1 ⟨entry, hentry, rfl, rfl⟩
    exact List.mem_map.2 ⟨event, hevent, congrArg Prod.fst hkey⟩
  refine (Set.ncard_le_ncard hsubset (List.finite_toSet _)).trans ?_
  exact (ncard_le_length _).trans_eq (List.length_map Event.user)

/-- No count of a metric exceeds the number of events. -/
theorem counts_le_length {metric : Metric} (h : metric ∈ (plan.output events records).metrics) :
    metric.starters ≤ events.length ∧ metric.completers ≤ events.length ∧
      metric.dropoffs ≤ events.length := by
  obtain ⟨hcompleters, hstarters⟩ := Metric.completers_le_starters h fun _ => one_le_stepRank
  have husers := plan.ncard_usersOf_le_length events records metric.dimensions
  have hdropoffs := Metric.dropoffs_eq h
  refine ⟨hstarters.trans husers, (hcompleters.trans hstarters).trans husers, ?_⟩
  omega

theorem passes_of_mem_entries {entry : Entry} (h : entry ∈ plan.entries events records) :
    plan.Passes events entry.sessionKey entry.stepRank :=
  (passes_iff (one_le_stepRank h)).2
    ⟨_, _, ((plan.isRelation_entries events records).sound entry h).1⟩

/-- A session has an entry of its combination for every rank that it passes. -/
theorem exists_mem_entries_of_passes {key : String × String} {dimensions : Dimensions}
    {rank : UInt32} (hpositive : 1 ≤ rank)
    (hcombines : Entry.Combines (plan.entries events records) key dimensions)
    (hpasses : plan.Passes events key rank) :
    ∃ entry ∈ plan.entries events records, entry.sessionKey = key ∧ entry.stepRank = rank ∧
      entry.dimensions = dimensions := by
  obtain ⟨time, added, hreaches⟩ := (passes_iff hpositive).1 hpasses
  obtain ⟨entry, ⟨hentry, hkey, hrank⟩, -⟩ :=
    (plan.isRelation_entries events records).complete key rank time added hreaches
  refine ⟨entry, hentry, hkey, hrank, ?_⟩
  rw [dimensions_of_mem_entries hentry, hkey, (combines_entries_iff.1 hcombines).2]

theorem usersReaching_eq {dimensions : Dimensions} {rank : UInt32} (hpositive : 1 ≤ rank) :
    Entry.usersReaching (plan.entries events records) dimensions rank =
      { user | ∃ session,
        Entry.Combines (plan.entries events records) (user, session) dimensions ∧
          plan.Passes events (user, session) rank } := by
  ext user
  constructor
  · rintro ⟨entry, hentry, ⟨rfl, rfl⟩, rfl⟩
    exact ⟨entry.session, ⟨entry, hentry, rfl, rfl⟩, passes_of_mem_entries hentry⟩
  · rintro ⟨session, hcombines, hpasses⟩
    obtain ⟨entry, hentry, hkey, hrank, hdimensions⟩ :=
      exists_mem_entries_of_passes hpositive hcombines hpasses
    exact ⟨entry, hentry, ⟨hdimensions, hrank⟩, congrArg Prod.fst hkey⟩

theorem usersCompleting_eq {dimensions : Dimensions} :
    Entry.usersCompleting (plan.entries events records) dimensions
        (UInt32.ofNat plan.steps.length) =
      { user | ∃ session,
        Entry.Combines (plan.entries events records) (user, session) dimensions ∧
          plan.Passes events (user, session) 1 ∧
          plan.Passes events (user, session) (UInt32.ofNat plan.steps.length) } := by
  have hlast : 1 ≤ UInt32.ofNat plan.steps.length := by
    obtain ⟨-, step, hstep, hrank⟩ := Config.exists_last_step_of_check plan.accepted
    exact le_of_le_of_eq (one_le_rank hstep) hrank
  ext user
  constructor
  · rintro ⟨first, hfirst, ⟨rfl, hfirst_rank, ⟨final, hfinal, hkey, hfinal_rank⟩, -⟩, rfl⟩
    have hsession : final.sessionKey = first.sessionKey :=
      congrArg (fun key => (key.1, key.2.1)) hkey
    have hpasses := passes_of_mem_entries hfinal
    rw [hsession, hfinal_rank] at hpasses
    have hpasses_first := passes_of_mem_entries hfirst
    rw [hfirst_rank] at hpasses_first
    exact ⟨first.session, ⟨first, hfirst, rfl, rfl⟩, hpasses_first, hpasses⟩
  · rintro ⟨session, hcombines, hpasses_first, hpasses⟩
    obtain ⟨first, hfirst, hfirst_key, hfirst_rank, hfirst_dimensions⟩ :=
      exists_mem_entries_of_passes (Std.le_refl 1) hcombines hpasses_first
    obtain ⟨final, hfinal, hfinal_key, hfinal_rank, hfinal_dimensions⟩ :=
      exists_mem_entries_of_passes hlast hcombines hpasses
    obtain ⟨huser, hsession⟩ := Prod.mk.inj (hfinal_key.trans hfirst_key.symm)
    refine ⟨first, hfirst, ⟨hfirst_dimensions, hfirst_rank, ⟨final, hfinal, ?_, hfinal_rank⟩, ?_⟩,
      congrArg Prod.fst hfirst_key⟩
    · rw [Entry.journeyKey, huser, hsession, hfinal_dimensions, ← hfirst_dimensions,
        Entry.journeyKey]
    · -- nothing stands above the last rank
      intro other hother _
      obtain ⟨step, hstep, hrank⟩ := exists_step_of_mem_entries hother
      exact hrank ▸ rank_le_length hstep

theorem counts_output (plan : Plan) (events : List Event) (records : List AttributeRecord) :
    plan.Counts events (plan.output events records) where
  unified := by
    intro key a b ha hb
    rw [(combines_entries_iff.1 ha).2, (combines_entries_iff.1 hb).2]
  matched := by
    intro key
    constructor
    · rintro ⟨dimensions, hcombines⟩
      exact (combines_entries_iff.1 hcombines).1
    · intro hmatch
      exact ⟨_, combines_entries_iff.2 ⟨hmatch, rfl⟩⟩
  combinations := by
    intro dimensions
    -- there are no entries exactly if no session has an event of a step
    have hentries : plan.entries events records = [] ↔
        ¬ ∃ key, ∃ event ∈ events, event.Matches plan.steps key := by
      constructor
      · rintro hnil ⟨key, hmatch⟩
        obtain ⟨entry, hentry, -⟩ := combines_entries_iff.2 ⟨hmatch, rfl⟩
        rw [hnil] at hentry
        cases hentry
      · intro hnone
        refine List.eq_nil_iff_forall_not_mem.2 fun entry hentry => hnone ?_
        exact ⟨_, (combines_entries_iff.1 ⟨entry, hentry, rfl, rfl⟩).1⟩
    have hcombines : (∃ entry ∈ plan.entries events records, entry.dimensions = dimensions) ↔
        ∃ key, Entry.Combines (plan.entries events records) key dimensions := by
      constructor
      · rintro ⟨entry, hentry, rfl⟩
        exact ⟨_, entry, hentry, rfl, rfl⟩
      · rintro ⟨key, entry, hentry, -, rfl⟩
        exact ⟨entry, hentry, rfl⟩
    refine Metric.mem_map_dimensions_ofEntries.trans ?_
    rw [hentries, hcombines, Dimensions.eq_unset_iff]
    exact Iff.rfl
  rows := by
    intro dimensions hdimensions
    obtain ⟨metric, hmetric, rfl⟩ := List.mem_map.1 hdimensions
    have hmem := (Metric.exists_of_mem_ofEntries hmetric).1
    refine ⟨Metric.existsUnique_isEndToEnd hmem, fun rank hone hle => ?_⟩
    exact Metric.existsUnique_isStage plan.nodup_ranks hmem
      ((Config.exists_step_of_check plan.accepted).2 ⟨hone, hle⟩)
  stage := by
    intro row hrow dimensions rank hstage
    obtain ⟨step, hstep, rfl, -⟩ := hstage.exists_step hrow
    rw [(hstage.counts hrow).1]
    exact congrArg Set.ncard (usersReaching_eq (one_le_rank hstep))
  endToEnd := by
    intro total htotal dimensions hend
    obtain ⟨hstarters, hcompleters⟩ := hend.counts htotal fun _ => one_le_stepRank
    rw [maxRank_steps] at hcompleters
    rw [hstarters, hcompleters]
    exact ⟨congrArg Set.ncard (usersReaching_eq (Std.le_refl 1)),
      congrArg Set.ncard usersCompleting_eq⟩

/-- A run of acceptable events gives the counts of these events. -/
theorem run_counts (plan : Plan) (events : List Event) (records : List AttributeRecord)
    (h : firstDefect? events = none) :
    ∃ output, plan.run events records = .ok output ∧ plan.Counts events output :=
  ⟨plan.output events records, run_eq_ok_iff.2 ⟨h, rfl⟩, plan.counts_output events records⟩

theorem run_checkout_counts :
    firstDefect? checkoutEvents = none ∧
      ∃ output, checkout.run checkoutEvents [] = .ok output ∧
        checkout.Counts checkoutEvents output :=
  ⟨by decide, checkout.run_counts checkoutEvents [] (by decide)⟩

end Plan

end Funnel
