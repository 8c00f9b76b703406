import Mathlib
import Funnel.Proofs.Entry.Backfill

/-!
# Gaps

A session has a gap where it skipped a step below one that it reached. Each gap is filled by one
entry, and once all gaps are filled there are none left.
-/

namespace Funnel.Entry

variable {steps : List Step} {session : List Entry} {entry : Entry} {rank : UInt32}

/-- A session skipped the step of a rank below the highest that it reached. -/
structure Skips (steps : List Step) (session : List Entry) (rank : UInt32) : Prop where
  named : ∃ step ∈ steps, step.rank = rank
  absent : ∀ entry ∈ session, entry.stepRank ≠ rank
  positive : 1 ≤ rank
  below : ∃ highest, IsGreatest { r | ∃ entry ∈ session, entry.stepRank = r } highest ∧
    rank < highest

/-- Entries that fill the gaps of others. -/
structure FillsGaps (steps : List Step) (entries added : List Entry) : Prop where
  /-- A session is given an entry for each rank that it skipped. -/
  complete : ∀ key rank,
    (key, rank) ∈ added.map cell ↔ Skips steps (ofSession key entries) rank
  /-- It is given one only. -/
  once : (added.map cell).Nodup
  /-- The entry has the name of the step of its rank, no signals, and the rest from an entry of the
  session which is, of those of higher rank, the earliest and of these the lowest. -/
  lent : ∀ entry ∈ added, ∃ step ∈ steps, ∃ anchor ∈ ofSession entry.sessionKey entries,
    step.rank < anchor.stepRank ∧
      (∀ other ∈ ofSession entry.sessionKey entries, step.rank < other.stepRank →
        anchor.enteredAt < other.enteredAt ∨
          anchor.enteredAt = other.enteredAt ∧ anchor.stepRank ≤ other.stepRank) ∧
      entry =
        { user := anchor.user
          session := anchor.session
          stepName := step.name
          stepRank := step.rank
          enteredAt := anchor.enteredAt
          dimensions := anchor.dimensions
          previousStep := none
          nextEnteredAt := none
          converted := false
          secondsToConvert := none
          backfilled := true }

theorem exists_isGreatest_rank (h : ∃ entry ∈ session, rank < entry.stepRank) :
    ∃ highest, IsGreatest { r | ∃ entry ∈ session, entry.stepRank = r } highest ∧
      rank < highest := by
  obtain ⟨above, habove, hlt⟩ := h
  obtain ⟨last, hlast⟩ := exists_firstMaxOn? stepRank (List.ne_nil_of_mem habove)
  have hgreatest : ∀ other ∈ session, other.stepRank ≤ last.stepRank := fun other hother =>
    Std.isLE_compare.1 (isLE_of_firstMaxOn? hlast hother)
  refine ⟨last.stepRank, ⟨⟨last, mem_of_firstMaxOn? hlast, rfl⟩, ?_⟩,
    Std.lt_of_lt_of_le hlt (hgreatest above habove)⟩
  rintro _ ⟨other, hother, rfl⟩
  exact hgreatest other hother

/-- The ranks that a session skipped are those of the entries it is given. -/
theorem skips_iff :
    Skips steps session rank ↔
      ∃ entry, FillsIn steps session entry ∧ entry.stepRank = rank := by
  constructor
  · rintro ⟨⟨step, hstep, rfl⟩, habsent, hpositive, highest, ⟨⟨above, habove, rfl⟩, -⟩, hlt⟩
    exact exists_fillsIn hstep hpositive habsent ⟨above, habove, hlt⟩
  · rintro ⟨entry, ⟨⟨step, hstep, hrank, -⟩, hpositive, habsent, anchor, hanchor, -⟩, rfl⟩
    obtain ⟨hmem, hlt, -⟩ := anchor?_eq_some hanchor
    exact ⟨⟨step, hstep, hrank⟩, habsent, hpositive, exists_isGreatest_rank ⟨anchor, hmem, hlt⟩⟩

/-- A session that is given the entries of all ranks that it skipped has skipped none. -/
theorem not_skips_append_skipped (hranks : (steps.map Step.rank).Nodup) :
    ¬ Skips steps (session ++ skipped steps session) rank := by
  rintro ⟨hnamed, habsent, hpositive, highest, ⟨⟨above, habove, rfl⟩, -⟩, hlt⟩
  -- an entry that was added stands below one of the session, so that one is above the rank as well
  have hsession : ∃ other ∈ session, rank < other.stepRank := by
    rcases List.mem_append.1 habove with habove | habove
    · exact ⟨above, habove, hlt⟩
    · obtain ⟨anchor, hanchor, -⟩ := ((mem_skipped_iff hranks).1 habove).anchored
      obtain ⟨hmem, hlt', -⟩ := anchor?_eq_some hanchor
      exact ⟨anchor, hmem, Std.lt_trans hlt hlt'⟩
  have hskips : Skips steps session rank :=
    ⟨hnamed, fun entry hentry => habsent entry (List.mem_append_left _ hentry), hpositive,
      exists_isGreatest_rank hsession⟩
  obtain ⟨entry, hentry, hrank⟩ := skips_iff.1 hskips
  exact habsent entry (List.mem_append_right _ ((mem_skipped_iff hranks).2 hentry)) hrank

theorem fillsGaps_missing (hranks : (steps.map Step.rank).Nodup) (entries : List Entry) :
    FillsGaps steps entries (missing steps entries) where
  complete key rank := by
    rw [skips_iff, List.mem_map]
    constructor
    · rintro ⟨entry, hentry, hcell⟩
      obtain ⟨rfl, rfl⟩ := Prod.mk.inj hcell
      exact ⟨entry, (mem_missing_iff hranks).1 hentry, rfl⟩
    · rintro ⟨entry, hentry, rfl⟩
      -- what a session lacks is made of the session alone
      have hsession : entry ∈ ofSession key (missing steps entries) := by
        rw [ofSession_missing hranks]
        exact (mem_skipped_iff hranks).2 hentry
      obtain ⟨hmem, hkey⟩ := mem_ofSession.1 hsession
      exact ⟨entry, hmem, Prod.ext hkey rfl⟩
  once := nodup_cell_iff.2 fun key => by
    rw [ofSession_missing hranks]
    exact (ascending_skipped steps _).nodup_map
  lent entry hentry := by
    obtain ⟨⟨step, hstep, hrank, hname⟩, -, -, anchor, hanchor, hentry_eq⟩ :=
      (mem_missing_iff hranks).1 hentry
    obtain ⟨hmem, hlt, hleast⟩ := anchor?_eq_some hanchor
    rw [← hrank] at hlt hleast
    refine ⟨step, hstep, anchor, hmem, hlt, hleast, ?_⟩
    rw [hname, hrank]
    exact hentry_eq

/-- A filled list lacks nothing. -/
theorem missing_backfill (hranks : (steps.map Step.rank).Nodup) (entries : List Entry) :
    missing steps (backfill steps entries) = [] := by
  refine List.eq_nil_iff_forall_not_mem.2 fun entry hentry => ?_
  have hskips := skips_iff.2 ⟨entry, (mem_missing_iff hranks).1 hentry, rfl⟩
  rw [ofSession_backfill hranks] at hskips
  exact not_skips_append_skipped hranks hskips

/-- Entries stay as they are and are followed by those that fill their gaps, which are as many as
the list gets longer; filling in again adds nothing. -/
theorem backfill_fills_gaps_once (steps : List Step) (hranks : (steps.map Step.rank).Nodup)
    (entries : List Entry) :
    ∃ added, backfill steps entries = entries ++ added ∧ FillsGaps steps entries added ∧
      (backfill steps entries).length - entries.length = added.length ∧
      backfill steps (backfill steps entries) = backfill steps entries := by
  refine ⟨missing steps entries, rfl, fillsGaps_missing hranks entries, ?_, ?_⟩
  · rw [backfill, List.length_append, Nat.add_sub_cancel_left]
  · show backfill steps entries ++ missing steps (backfill steps entries) = backfill steps entries
    rw [missing_backfill hranks, List.append_nil]

/-- Steps out of order, of which none has the rank 2. -/
def receiptSteps : List Step :=
  [{ rank := 4, name := "Receipt", eventTypes := TextSet.ofTexts ["receipt"] },
    { rank := 1, name := "Home", eventTypes := TextSet.ofTexts ["home"] },
    { rank := 3, name := "Purchase", eventTypes := TextSet.ofTexts ["paid"] }]

/-- A session that showed the receipt twice and nothing before it. -/
def receiptEntries : List Entry :=
  [{ user := "ann", session := "s1", stepName := "Receipt", stepRank := 4, enteredAt := ⟨20⟩,
      dimensions := .empty },
    { user := "ann", session := "s1", stepName := "Receipt", stepRank := 4, enteredAt := ⟨10⟩,
      dimensions := .empty }]

theorem backfill_receiptSteps :
    (receiptSteps.map Step.rank).Nodup ∧
      (backfill receiptSteps receiptEntries).map
        (fun entry => (entry.stepName, entry.enteredAt.micros)) =
          [("Receipt", 20), ("Receipt", 10), ("Home", 10), ("Purchase", 10)] ∧
      ∃ added, backfill receiptSteps receiptEntries = receiptEntries ++ added ∧
        FillsGaps receiptSteps receiptEntries added ∧
        (backfill receiptSteps receiptEntries).length - receiptEntries.length = added.length ∧
        backfill receiptSteps (backfill receiptSteps receiptEntries) =
          backfill receiptSteps receiptEntries :=
  ⟨by decide, by cbv, backfill_fills_gaps_once receiptSteps (by decide) receiptEntries⟩

end Funnel.Entry
