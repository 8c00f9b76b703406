import Funnel.Entry.Backfill
import Funnel.Proofs.Entry.Position

/-!
# What filling in skipped steps adds

A session gets one entry for every step below its highest rank that it skipped. The entry stands
directly in front of its anchor, with no other entry of the session in between.
-/

namespace Funnel

open Std Time

/-- Where ranks are different, every rank has the name of its step. -/
theorem Step.mem_namesByRank_iff {steps : List Step} (hranks : (steps.map Step.rank).Nodup)
    {rank : UInt32} {name : String} :
    (rank, name) ∈ Step.namesByRank steps ↔
      ∃ step ∈ steps, step.rank = rank ∧ step.name = name := by
  rw [Step.namesByRank, mem_filterMap_groupBy]
  constructor
  · rintro ⟨other, -, h⟩
    obtain ⟨step, hstep, heq⟩ := Option.map_eq_some_iff.1 h
    obtain ⟨hmem, hrank⟩ := List.mem_filter.1 (List.mem_of_getLast? hstep)
    obtain ⟨rfl, rfl⟩ := Prod.mk.inj heq
    exact ⟨step, hmem, of_decide_eq_true hrank, rfl⟩
  · rintro ⟨step, hstep, rfl, rfl⟩
    refine ⟨step, hstep, ?_⟩
    have hmem : step ∈ steps.filter fun other => other.rank = step.rank :=
      List.mem_filter.2 ⟨hstep, decide_eq_true rfl⟩
    obtain ⟨last, hlast⟩ : ∃ last, (steps.filter fun other =>
        other.rank = step.rank).getLast? = some last :=
      Option.isSome_iff_exists.1 (List.getLast?_isSome.2 (List.ne_nil_of_mem hmem))
    obtain ⟨hlast_mem, hlast_rank⟩ := List.mem_filter.1 (List.mem_of_getLast? hlast)
    have hsame : last = step :=
      List.inj_on_of_nodup_map hranks hlast_mem hstep (of_decide_eq_true hlast_rank)
    simp only [hlast, hsame, Option.map_some]

theorem Step.ascending_namesByRank (steps : List Step) :
    Ascending Prod.fst (Step.namesByRank steps) := by
  refine ascending_filterMap_groupBy fun group _ named hnamed => ?_
  obtain ⟨step, -, rfl⟩ := Option.map_eq_some_iff.1 hnamed
  rfl

namespace Entry

variable {steps : List Step} {session : List Entry} {entry : Entry}

theorem anchor?_isSome {rank : UInt32} :
    (anchor? session rank).isSome ↔ ∃ other ∈ session, rank < other.stepRank := by
  rw [anchor?, firstMinOn?_isSome (κ := Instant × UInt32), ne_eq, List.filter_eq_nil_iff]
  simp

/-- The anchor of a rank has the least time, and of those the least rank, of all entries above. -/
theorem anchor?_eq_some {rank : UInt32} {anchor : Entry} (h : anchor? session rank = some anchor) :
    anchor ∈ session ∧ rank < anchor.stepRank ∧
      ∀ other ∈ session, rank < other.stepRank →
        anchor.enteredAt < other.enteredAt ∨
          anchor.enteredAt = other.enteredAt ∧ anchor.stepRank ≤ other.stepRank := by
  obtain ⟨hmem, hlt⟩ := List.mem_filter.1 (mem_of_firstMinOn? h)
  refine ⟨hmem, of_decide_eq_true hlt, fun other hother hrank => ?_⟩
  have hle := isLE_of_firstMinOn? h (List.mem_filter.2 ⟨hother, decide_eq_true hrank⟩)
  rw [isLE_compare_pair, Instant.compare_eq_lt, Std.isLE_compare] at hle
  exact hle

/-- An entry stands in for a step that a session skipped: the session has an entry above its rank,
none at it, and the anchor lends it time and dimensions. -/
structure FillsIn (steps : List Step) (session : List Entry) (entry : Entry) : Prop where
  named : ∃ step ∈ steps, step.rank = entry.stepRank ∧ step.name = entry.stepName
  positive : 1 ≤ entry.stepRank
  skipped : ∀ other ∈ session, other.stepRank ≠ entry.stepRank
  anchored : ∃ anchor, anchor? session entry.stepRank = some anchor ∧
    entry =
      { user := anchor.user
        session := anchor.session
        stepName := entry.stepName
        stepRank := entry.stepRank
        enteredAt := anchor.enteredAt
        dimensions := anchor.dimensions
        backfilled := true }

theorem mem_skipped_iff (hranks : (steps.map Step.rank).Nodup) :
    entry ∈ skipped steps session ↔ FillsIn steps session entry := by
  rw [skipped, List.mem_filterMap]
  constructor
  · rintro ⟨⟨rank, name⟩, hnamed, h⟩
    simp only [Option.ite_none_right_eq_some, Option.map_eq_some_iff] at h
    obtain ⟨⟨hpositive, hskip⟩, anchor, hanchor, rfl⟩ := h
    refine ⟨(Step.mem_namesByRank_iff hranks).1 hnamed, hpositive, fun other hother heq => ?_,
      anchor, hanchor, rfl⟩
    have hany : session.any (·.stepRank == rank) = true :=
      List.any_eq_true.2 ⟨other, hother, beq_iff_eq.2 heq⟩
    simp [hany] at hskip
  · rintro ⟨hnamed, hpositive, hskipped, anchor, hanchor, heq⟩
    refine ⟨(entry.stepRank, entry.stepName), (Step.mem_namesByRank_iff hranks).2 hnamed, ?_⟩
    have hany : session.any (·.stepRank == entry.stepRank) = false := by
      simpa using hskipped
    simp only [hpositive, hany, Bool.not_false, and_self, if_true, hanchor, Option.map_some]
    exact congrArg some heq.symm

/-- A rank that a session skipped has an entry that stands in for it. -/
theorem exists_fillsIn {step : Step} (hstep : step ∈ steps) (hpositive : 1 ≤ step.rank)
    (hskipped : ∀ other ∈ session, other.stepRank ≠ step.rank)
    (habove : ∃ other ∈ session, step.rank < other.stepRank) :
    ∃ entry, FillsIn steps session entry ∧ entry.stepRank = step.rank := by
  obtain ⟨anchor, hanchor⟩ := Option.isSome_iff_exists.1 (anchor?_isSome.2 habove)
  -- all but the step is lent by the anchor
  let entry : Entry :=
    { user := anchor.user
      session := anchor.session
      stepName := step.name
      stepRank := step.rank
      enteredAt := anchor.enteredAt
      dimensions := anchor.dimensions
      backfilled := true }
  exact ⟨entry, ⟨⟨step, hstep, rfl, rfl⟩, hpositive, hskipped, anchor, hanchor, rfl⟩, rfl⟩

theorem ascending_skipped (steps : List Step) (session : List Entry) :
    Ascending stepRank (skipped steps session) := by
  refine List.pairwise_filterMap.2 ((Step.ascending_namesByRank steps).imp ?_)
  intro ⟨rank, name⟩ ⟨rank', name'⟩ hlt entry hentry entry' hentry'
  simp only [Option.ite_none_right_eq_some, Option.map_eq_some_iff] at hentry hentry'
  obtain ⟨-, anchor, -, rfl⟩ := hentry
  obtain ⟨-, anchor', -, rfl⟩ := hentry'
  exact hlt

namespace FillsIn

theorem backfilled_eq (h : FillsIn steps session entry) : entry.backfilled = true := by
  obtain ⟨anchor, -, heq⟩ := h.anchored
  rw [heq]

/-- An added entry is of the session that it is added to. -/
theorem sessionKey_eq (h : FillsIn steps session entry) {key : String × String}
    (hkey : ∀ other ∈ session, other.sessionKey = key) : entry.sessionKey = key := by
  obtain ⟨anchor, hanchor, heq⟩ := h.anchored
  rw [heq]
  exact hkey anchor (anchor?_eq_some hanchor).1

/-- An added entry stands directly in front of its anchor: every entry of the session behind it is
the anchor or stands behind the anchor. -/
theorem exists_anchor (h : FillsIn steps session entry) (hranks : (session.map stepRank).Nodup) :
    ∃ anchor ∈ session, entry.sessionKey = anchor.sessionKey ∧
      entry.enteredAt = anchor.enteredAt ∧ entry.stepRank < anchor.stepRank ∧
      entry.dimensions = anchor.dimensions ∧
      ∀ other ∈ session, compare entry.position other.position = .lt →
        other = anchor ∨ compare anchor.position other.position = .lt := by
  obtain ⟨anchor, hanchor, heq⟩ := h.anchored
  obtain ⟨hmem, hrank, hleast⟩ := anchor?_eq_some hanchor
  have htime : entry.enteredAt = anchor.enteredAt := by rw [heq]
  refine ⟨anchor, hmem, by rw [heq]; rfl, htime, hrank, by rw [heq], fun other hother hlt => ?_⟩
  by_cases hsame : other = anchor
  · exact .inl hsame
  -- behind the added entry, another one is later than the anchor or at its time and above its rank
  refine .inr ((position_lt_iff fun heq => ?_).2 ?_)
  · exact hsame (List.inj_on_of_nodup_map hranks hother hmem heq.symm)
  · rcases (position_lt_iff (h.skipped other hother).symm).1 hlt with hlt | ⟨heq_time, hlt_rank⟩
    · exact .inl (htime ▸ hlt)
    · rcases hleast other hother hlt_rank with hbefore | ⟨heq_time', hle⟩
      · exact .inl hbefore
      · refine .inr ⟨heq_time', Std.lt_of_le_of_ne hle fun heq => ?_⟩
        exact hsame (List.inj_on_of_nodup_map hranks hother hmem heq.symm)

end FillsIn

theorem sessionKey_of_mem_skipped (hranks : (steps.map Step.rank).Nodup) {key : String × String}
    (hkey : ∀ other ∈ session, other.sessionKey = key) :
    ∀ entry ∈ skipped steps session, entry.sessionKey = key :=
  fun _ h => ((mem_skipped_iff hranks).1 h).sessionKey_eq hkey

theorem skipped_nil (hranks : (steps.map Step.rank).Nodup) : skipped steps [] = [] := by
  refine List.eq_nil_iff_forall_not_mem.2 fun entry h => ?_
  obtain ⟨anchor, hanchor, -⟩ := ((mem_skipped_iff hranks).1 h).anchored
  cases (anchor?_eq_some hanchor).1

/-- What is added of a session is what the session skipped. -/
theorem ofSession_missing (hranks : (steps.map Step.rank).Nodup) (key : String × String)
    (entries : List Entry) :
    ofSession key (missing steps entries) = skipped steps (ofSession key entries) :=
  ofSession_flatMap_bySession (skipped_nil hranks) (fun _ _ => sessionKey_of_mem_skipped hranks)
    key entries

/-- A session of the filled entries is the session with the steps that it skipped. -/
theorem ofSession_backfill (hranks : (steps.map Step.rank).Nodup) (key : String × String)
    (entries : List Entry) :
    ofSession key (backfill steps entries) =
      ofSession key entries ++ skipped steps (ofSession key entries) := by
  rw [backfill, ofSession, List.filter_append]
  exact congrArg (ofSession key entries ++ ·) (ofSession_missing hranks key entries)

/-- Some of the sessions are filled without the others. -/
theorem backfill_filter (hranks : (steps.map Step.rank).Nodup) (p : String × String → Bool)
    (entries : List Entry) :
    backfill steps (entries.filter fun entry => p entry.sessionKey) =
      (backfill steps entries).filter fun entry => p entry.sessionKey := by
  have hmissing : missing steps (entries.filter fun entry => p entry.sessionKey) =
      (missing steps entries).filter fun entry => p entry.sessionKey := by
    refine flatMap_groupBy_filter sessionKey fun group hgroup entry h => ?_
    rw [sessionKey_of_mem_skipped hranks (key_of_mem_runs hgroup) entry h]
  rw [backfill, hmissing, backfill, List.filter_append]

theorem mem_missing_iff (hranks : (steps.map Step.rank).Nodup) {entries : List Entry} :
    entry ∈ missing steps entries ↔ FillsIn steps (ofSession entry.sessionKey entries) entry := by
  rw [← mem_skipped_iff hranks, ← ofSession_missing hranks, mem_ofSession]
  exact (and_iff_left rfl).symm

theorem mem_backfill_iff (hranks : (steps.map Step.rank).Nodup) {entries : List Entry} :
    entry ∈ backfill steps entries ↔
      entry ∈ entries ∨ FillsIn steps (ofSession entry.sessionKey entries) entry := by
  rw [backfill, List.mem_append, mem_missing_iff hranks]

theorem nodup_rank_append_skipped (hranks : (steps.map Step.rank).Nodup)
    (hsession : (session.map stepRank).Nodup) :
    ((session ++ skipped steps session).map stepRank).Nodup := by
  rw [List.map_append]
  refine List.Nodup.append hsession (ascending_skipped steps session).nodup_map ?_
  intro rank hsession hskipped
  obtain ⟨other, hother, rfl⟩ := List.mem_map.1 hsession
  obtain ⟨entry, hentry, heq⟩ := List.mem_map.1 hskipped
  exact ((mem_skipped_iff hranks).1 hentry).skipped other hother heq.symm

theorem nodup_cell_backfill (hranks : (steps.map Step.rank).Nodup) {entries : List Entry}
    (hcells : (entries.map cell).Nodup) : ((backfill steps entries).map cell).Nodup := by
  refine nodup_cell_iff.2 fun key => ?_
  rw [ofSession_backfill hranks]
  exact nodup_rank_append_skipped hranks (nodup_cell_iff.1 hcells key)

end Entry

end Funnel
