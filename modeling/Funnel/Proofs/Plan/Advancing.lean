import Funnel.Proofs.Plan.Unity

/-!
# Who completes a step

Where only higher ranks count as going on, whoever completes a step is among the users with an entry
above it in the same combination, and nobody completes the last step.
-/

namespace Funnel

open Std Time

/-- Another entry of the session and combination is above an entry, and not before it. -/
structure Entry.AdvancesTo (entry above : Entry) : Prop where
  session : above.sessionKey = entry.sessionKey
  combination : above.dimensions = entry.dimensions
  rank : entry.stepRank < above.stepRank
  time : entry.enteredAt ≤ above.enteredAt

/-- The users with an entry above a rank in a combination. -/
def Entry.usersAbove (entries : List Entry) (dimensions : Dimensions) (rank : UInt32) :
    Set String :=
  usersWhere entries fun entry => entry.dimensions = dimensions ∧ rank < entry.stepRank

namespace Plan

variable {plan : Plan} {events : List Event} {records : List AttributeRecord}

/-- Some results count nobody as completing a step who does not advance from it. -/
structure CreditsAdvances (plan : Plan) (output : RunOutput) : Prop where
  /-- An entry is converted if its session advances to another one. -/
  converted : ∀ entry ∈ output.entries,
    entry.converted = true ↔ ∃ above ∈ output.entries, entry.AdvancesTo above
  /-- A combination has one row for every step. -/
  rows : ∀ dimensions ∈ output.metrics.map Metric.dimensions, ∀ rank : UInt32,
    1 ≤ rank.toNat → rank.toNat ≤ plan.steps.length →
      ∃! row, row ∈ output.metrics ∧ row.IsStage dimensions rank
  /-- A step is completed by the users with a converted entry of its rank. -/
  completers : ∀ row ∈ output.metrics, ∀ dimensions rank, row.IsStage dimensions rank →
    row.completers = (Entry.usersConverting output.entries dimensions rank).ncard
  /-- Whoever completes a step has an entry above it in the same combination. -/
  above : ∀ dimensions rank, Entry.usersConverting output.entries dimensions rank ⊆
    Entry.usersAbove output.entries dimensions rank
  /-- Nobody completes the last step. -/
  last : ∀ row ∈ output.metrics, ∀ dimensions,
    row.IsStage dimensions (UInt32.ofNat plan.steps.length) → row.completers = 0

/-- A session advances from an entry when it enters another one to advance to. -/
theorem advances_eq {entry : Entry} (h : entry ∈ plan.entries events records) :
    plan.advances events entry.sessionKey entry.stepRank entry.enteredAt =
      { time | ∃ above ∈ plan.entries events records,
        entry.AdvancesTo above ∧ above.enteredAt = time } := by
  have hrelation := plan.isRelation_entries events records
  ext time
  constructor
  · rintro ⟨hle, higher, added, hlt, hreaches⟩
    obtain ⟨above, ⟨habove, hkey, rfl⟩, -⟩ := hrelation.complete _ _ _ _ hreaches
    obtain ⟨htime, -⟩ := (hkey ▸ (hrelation.sound above habove).1).unique hreaches
    refine ⟨above, habove, ⟨hkey, ?_, hlt, htime ▸ hle⟩, htime⟩
    exact dimensions_eq_of_sessionKey_eq above habove entry h hkey
  · rintro ⟨above, habove, hadvances, rfl⟩
    have hreaches := (hrelation.sound above habove).1
    rw [hadvances.session] at hreaches
    exact ⟨hadvances.time, _, _, hadvances.rank, hreaches⟩

/-- An entry is converted exactly if its session advances to another one. -/
theorem converted_iff (hmode : plan.config.mode = .higherRank) {entry : Entry}
    (h : entry ∈ plan.entries events records) :
    entry.converted = true ↔
      ∃ above ∈ plan.entries events records, entry.AdvancesTo above := by
  have hrelation := plan.isRelation_entries events records
  have hnext := hrelation.advance hmode entry h
  rw [advances_eq h] at hnext
  rw [hrelation.converted entry h, Option.isSome_iff_exists]
  constructor
  · rintro ⟨time, htime⟩
    obtain ⟨above, habove, hadvances, -⟩ := ((hnext time).1 htime).1
    exact ⟨above, habove, hadvances⟩
  · intro hadvances
    obtain ⟨time, hleast⟩ := Instant.exists_isLeast Entry.enteredAt hadvances
    exact ⟨time, (hnext time).2 hleast⟩

theorem usersConverting_subset_usersAbove (hmode : plan.config.mode = .higherRank)
    (dimensions : Dimensions) (rank : UInt32) :
    Entry.usersConverting (plan.entries events records) dimensions rank ⊆
      Entry.usersAbove (plan.entries events records) dimensions rank := by
  rintro _ ⟨entry, hentry, ⟨rfl, rfl, hconverted⟩, rfl⟩
  obtain ⟨above, habove, hadvances⟩ := (converted_iff hmode hentry).1 hconverted
  exact ⟨above, habove, ⟨hadvances.combination, hadvances.rank⟩,
    congrArg Prod.fst hadvances.session⟩

theorem usersAbove_last (dimensions : Dimensions) :
    Entry.usersAbove (plan.entries events records) dimensions (UInt32.ofNat plan.steps.length) =
      ∅ := by
  refine Set.eq_empty_of_forall_notMem ?_
  rintro _ ⟨above, habove, ⟨-, hlt⟩, -⟩
  obtain ⟨step, hstep, hrank⟩ := exists_step_of_mem_entries habove
  exact Std.not_lt_of_ge (hrank ▸ rank_le_length hstep) hlt

theorem creditsAdvances_output (hmode : plan.config.mode = .higherRank) (events : List Event)
    (records : List AttributeRecord) : plan.CreditsAdvances (plan.output events records) where
  converted entry hentry := converted_iff hmode hentry
  rows dimensions hdimensions := ((plan.counts_output events records).rows dimensions hdimensions).2
  completers row hrow dimensions rank hstage := (hstage.counts hrow).2
  above := usersConverting_subset_usersAbove hmode
  last := by
    intro row hrow dimensions hstage
    refine (hstage.counts hrow).2.trans ((congrArg Set.ncard ?_).trans (Set.ncard_empty _))
    exact Set.subset_eq_empty (usersConverting_subset_usersAbove hmode _ _) (usersAbove_last _)

/-- A run on acceptable events under which only higher ranks count as going on counts advances
only. -/
theorem run_creditsAdvances (plan : Plan) (events : List Event) (records : List AttributeRecord)
    (hmode : plan.config.mode = .higherRank) (h : firstDefect? events = none) :
    ∃ output, plan.run events records = .ok output ∧ plan.CreditsAdvances output :=
  ⟨plan.output events records, run_eq_ok_iff.2 ⟨h, rfl⟩,
    creditsAdvances_output hmode events records⟩

theorem run_checkout_creditsAdvances :
    checkout.config.mode = .higherRank ∧ firstDefect? checkoutEvents = none ∧
      ∃ output, checkout.run checkoutEvents [] = .ok output ∧ checkout.CreditsAdvances output :=
  ⟨rfl, by decide, checkout.run_creditsAdvances checkoutEvents [] rfl (by decide)⟩

end Plan

end Funnel
