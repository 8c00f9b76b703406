import Funnel.Proofs.Entry.Successor

/-!
# What sequencing does to entries

A session of the result is the sequence of that session alone, an entry's previous step is that of
the entry in front of it, and the time at which its session went on is the least of those by which
it did.
-/

namespace Funnel.Entry

open Std Time

variable {mode : ConversionMode}

@[simp]
theorem bare_withSignals (entry : Entry) (previous next : Option Entry) :
    (entry.withSignals previous next).bare = entry.bare := rfl

theorem sessionKey_bare (entry : Entry) : entry.bare.sessionKey = entry.sessionKey := rfl

theorem position_bare (entry : Entry) : entry.bare.position = entry.position := rfl

theorem cell_bare (entry : Entry) : entry.bare.cell = entry.cell := rfl

theorem map_bare_signal (previous : Option Entry) (session : List Entry) :
    (signal mode previous session).map bare = session.map bare := by
  induction session generalizing previous with
  | nil => rfl
  | cons entry later ih => simp [signal, ih]

/-- Whatever ignores signals is the same for a list of entries and for the list with signals. -/
theorem map_eq_of_map_bare_eq {α : Type} {f : Entry → α} (hf : ∀ entry, f entry.bare = f entry)
    {xs ys : List Entry} (h : xs.map bare = ys.map bare) : xs.map f = ys.map f := by
  have hcomp : f ∘ bare = f := funext hf
  rw [← hcomp, ← List.map_map, ← List.map_map, h]

theorem map_bare_sequenceSession (mode : ConversionMode) (session : List Entry) :
    (sequenceSession mode session).map bare = (sortOn position session).map bare := by
  rw [sequenceSession_eq, map_bare_signal]

/-- An entry of a sequence, with what stood around it before there were signals. -/
theorem exists_of_signal_eq_append {previous : Option Entry} {session before after : List Entry}
    {entry : Entry} (h : signal mode previous session = before ++ entry :: after) :
    ∃ earlier origin later, session = earlier ++ origin :: later ∧
      before.map bare = earlier.map bare ∧
      entry = origin.withSignals (earlier.getLast?.or previous) (successor? mode origin later) ∧
      after = signal mode (some origin) later := by
  induction session generalizing previous before with
  | nil => simp [signal] at h
  | cons first rest ih =>
    cases before with
    | nil =>
      obtain ⟨rfl, rfl⟩ := List.cons.inj h
      exact ⟨[], first, rest, rfl, rfl, rfl, rfl⟩
    | cons b before =>
      obtain ⟨rfl, hrest⟩ := List.cons.inj h
      obtain ⟨earlier, origin, later, rfl, hbare, rfl, hafter⟩ := ih hrest
      refine ⟨first :: earlier, origin, later, rfl, by simp [hbare], ?_, hafter⟩
      rw [List.getLast?_cons]
      cases earlier.getLast? <;> rfl

theorem sequence_eq (entries : List Entry) :
    sequence mode entries = (distinct (entries.map sessionKey)).flatMap fun key =>
      sequenceSession mode (ofSession key entries) := by
  rw [sequence, bySession_eq, List.flatMap_map]

theorem sessionKey_of_mem_sequenceSession {key : String × String} {session : List Entry}
    (hkey : ∀ entry ∈ session, entry.sessionKey = key) :
    ∀ entry ∈ sequenceSession mode session, entry.sessionKey = key := by
  intro entry h
  have hbare : entry.bare ∈ (sortOn position session).map bare := by
    rw [← map_bare_sequenceSession mode]
    exact List.mem_map_of_mem h
  obtain ⟨origin, horigin, heq⟩ := List.mem_map.1 hbare
  rw [← sessionKey_bare, ← heq, sessionKey_bare]
  exact hkey origin (mem_sortOn.1 horigin)

theorem ofSession_sequence (mode : ConversionMode) (key : String × String)
    (entries : List Entry) :
    ofSession key (sequence mode entries) = sequenceSession mode (ofSession key entries) :=
  ofSession_flatMap_bySession (by simp [sequenceSession_eq, sortOn, signal])
    (fun _ _ => sessionKey_of_mem_sequenceSession) key entries

/-- The sequence of some sessions is the part of the sequence that belongs to them. -/
theorem sequence_filter (mode : ConversionMode) (p : String × String → Bool)
    (entries : List Entry) :
    sequence mode (entries.filter fun entry => p entry.sessionKey) =
      (sequence mode entries).filter fun entry => p entry.sessionKey := by
  refine flatMap_groupBy_filter sessionKey fun group hgroup entry h => ?_
  rw [sessionKey_of_mem_sequenceSession (key_of_mem_runs hgroup) entry h]

theorem map_bare_sequence_perm (mode : ConversionMode) (entries : List Entry) :
    ((sequence mode entries).map bare).Perm (entries.map bare) := by
  have hsessions : ((sequence mode entries).map bare).Perm
      (((bySession entries).flatMap Prod.snd).map bare) := by
    rw [sequence, List.map_flatMap, List.map_flatMap]
    refine List.Perm.flatMap_left _ fun group _ => ?_
    rw [map_bare_sequenceSession]
    exact (sortOn_perm position group.2).map bare
  exact hsessions.trans ((flatMap_groupBy_perm sessionKey entries).map bare)

theorem exists_mem_of_mem_sequence {entries : List Entry} {entry : Entry}
    (h : entry ∈ sequence mode entries) : ∃ origin ∈ entries, origin.bare = entry.bare := by
  have hbare := (map_bare_sequence_perm mode entries).mem_iff.1 (List.mem_map_of_mem h)
  obtain ⟨origin, horigin, heq⟩ := List.mem_map.1 hbare
  exact ⟨origin, horigin, heq⟩

theorem exists_mem_sequence_of_mem (mode : ConversionMode) {entries : List Entry} {origin : Entry}
    (h : origin ∈ entries) :
    ∃ entry ∈ sequence mode entries, entry.bare = origin.bare := by
  have hbare := (map_bare_sequence_perm mode entries).mem_iff.2 (List.mem_map_of_mem h)
  obtain ⟨entry, hentry, heq⟩ := List.mem_map.1 hbare
  exact ⟨entry, hentry, heq⟩

theorem map_cell_sequence_perm (mode : ConversionMode) (entries : List Entry) :
    ((sequence mode entries).map cell).Perm (entries.map cell) := by
  have h := (map_bare_sequence_perm mode entries).map cell
  rw [List.map_map, List.map_map] at h
  exact h

/-- The previous step of an entry is that of the entry of its session in front of it; in the mode
that counts any later entry, the session went on with the one behind it. -/
theorem neighbours_of_sequence {entries before after : List Entry} {entry : Entry}
    (h : sequence mode entries = before ++ entry :: after) :
    entry.previousStep = (ofSession entry.sessionKey before).getLast?.map stepName ∧
      (mode = .anyLaterEvent →
        entry.nextEnteredAt = (ofSession entry.sessionKey after).head?.map enteredAt) := by
  -- the rows of one session are in sequence by themselves
  have hsession : signal mode none (sortOn position (ofSession entry.sessionKey entries)) =
      ofSession entry.sessionKey before ++ entry :: ofSession entry.sessionKey after := by
    have hfilter := ofSession_sequence mode entry.sessionKey entries
    rw [h, ofSession, List.filter_append, List.filter_cons_of_pos (by simp)] at hfilter
    rw [← sequenceSession_eq]
    exact hfilter.symm
  obtain ⟨earlier, origin, later, -, hbefore, hentry, hafter⟩ :=
    exists_of_signal_eq_append hsession
  constructor
  · have hlast := congrArg List.getLast? (map_eq_of_map_bare_eq (f := stepName)
      (fun _ => rfl) hbefore)
    rw [List.getLast?_map, List.getLast?_map] at hlast
    rw [hlast]
    have hprevious := congrArg previousStep hentry
    simpa [withSignals] using hprevious
  · rintro rfl
    have hnext := congrArg nextEnteredAt hentry
    rw [hnext, hafter]
    cases later <;> rfl

/-- A session goes on from one entry by another: the other one stands behind it and, where the mode
asks for it, has a higher rank. -/
def GoesOn (mode : ConversionMode) (entry other : Entry) : Prop :=
  compare entry.position other.position = .lt ∧
    (mode = .higherRank → entry.stepRank < other.stepRank)

/-- The times at which a session goes on from an entry. -/
def onward (mode : ConversionMode) (entry : Entry) (session : List Entry) : Set Instant :=
  { time | ∃ other ∈ session, entry.GoesOn mode other ∧ other.enteredAt = time }

theorem onward_congr_bare {entry entry' : Entry} (h : entry.bare = entry'.bare)
    (session : List Entry) : onward mode entry session = onward mode entry' session := by
  have hposition : entry.position = entry'.position := congrArg (fun e => e.position) h
  have hrank : entry.stepRank = entry'.stepRank := congrArg (fun e => e.stepRank) h
  simp only [onward, GoesOn, hposition, hrank]

theorem successor?_eq_find? (entry : Entry) (later : List Entry) :
    successor? mode entry later = later.find? fun other =>
      mode = .higherRank → entry.stepRank < other.stepRank := by
  cases mode with
  | anyLaterEvent => cases later <;> simp [successor?]
  | higherRank => simp [successor?]

/-- The successor of an entry has the least time at which its session goes on from it. -/
theorem successor?_enteredAt_eq_some_iff {before later : List Entry} {entry : Entry}
    (hasc : Ascending position (before ++ entry :: later)) {time : Instant} :
    (successor? mode entry later).map enteredAt = some time ↔
      IsLeast (onward mode entry (before ++ entry :: later)) time := by
  have hleast : ∀ {next}, successor? mode entry later = some next →
      IsLeast (onward mode entry (before ++ entry :: later)) next.enteredAt := by
    intro next hnext
    rw [successor?_eq_find?, List.find?_eq_some_iff_append] at hnext
    obtain ⟨hrank, skipped, rest, rfl, hskipped⟩ := hnext
    have hmem : next ∈ skipped ++ next :: rest := by simp
    refine ⟨⟨next, by simp, ⟨hasc.lt_of_mem_tail hmem, of_decide_eq_true hrank⟩, rfl⟩, ?_⟩
    rintro _ ⟨other, hother, ⟨hlt, hhigher⟩, rfl⟩
    have hother := hasc.mem_tail_of_lt hother hlt
    -- what was passed over does not count as going on, and what follows is not earlier
    rcases List.mem_append.1 hother with hother | hother
    · have hnot := hskipped other hother
      simp only [Bool.not_eq_true', decide_eq_false_iff_not] at hnot
      exact absurd hhigher hnot
    · rcases List.mem_cons.1 hother with rfl | hother
      · exact le_rfl
      · have hrest : Ascending position (skipped ++ next :: rest) :=
          (List.pairwise_cons.1 (List.pairwise_append.1 hasc).2.1).2
        exact enteredAt_le_of_position_lt (hrest.lt_of_mem_tail hother)
  constructor
  · intro h
    obtain ⟨next, hnext, rfl⟩ := Option.map_eq_some_iff.1 h
    exact hleast hnext
  · intro h
    obtain ⟨other, hother, ⟨hlt, hhigher⟩, -⟩ := h.1
    cases hnext : successor? mode entry later with
    | none =>
      rw [successor?_eq_find?, List.find?_eq_none] at hnext
      have hnot := hnext other (hasc.mem_tail_of_lt hother hlt)
      exact absurd (decide_eq_true hhigher) hnot
    | some next => exact congrArg some ((hleast hnext).unique h)

/-- An entry of a sequence tells the least time at which its session goes on from it. -/
theorem nextEnteredAt_of_mem_sequence {entries : List Entry}
    (hcells : (entries.map cell).Nodup) {entry : Entry} (h : entry ∈ sequence mode entries)
    {time : Instant} :
    entry.nextEnteredAt = some time ↔
      IsLeast (onward mode entry (ofSession entry.sessionKey entries)) time := by
  have hmem : entry ∈ sequenceSession mode (ofSession entry.sessionKey entries) := by
    rw [← ofSession_sequence]
    simpa using h
  rw [sequenceSession_eq] at hmem
  obtain ⟨before, after, hsession⟩ := List.append_of_mem hmem
  obtain ⟨earlier, origin, later, hsorted, -, hentry, -⟩ := exists_of_signal_eq_append hsession
  have hasc := ascending_position (nodup_cell_iff.1 hcells entry.sessionKey)
  have hbare : entry.bare = origin.bare := by rw [hentry, bare_withSignals]
  have hnext : entry.nextEnteredAt = (successor? mode origin later).map enteredAt :=
    congrArg nextEnteredAt hentry
  -- the signals of the entry and the order of its session do not matter to the set
  have hset : onward mode entry (ofSession entry.sessionKey entries) =
      onward mode origin (earlier ++ origin :: later) := by
    rw [onward_congr_bare hbare, ← hsorted]
    simp only [onward, mem_sortOn]
  rw [hset, hnext]
  exact successor?_enteredAt_eq_some_iff (hsorted ▸ hasc)

theorem conversion_of_mem_sequence {entries : List Entry} {entry : Entry}
    (h : entry ∈ sequence mode entries) :
    entry.converted = entry.nextEnteredAt.isSome ∧
      entry.secondsToConvert =
        entry.nextEnteredAt.map fun time => time.secondsSince entry.enteredAt := by
  have hmem : entry ∈ sequenceSession mode (ofSession entry.sessionKey entries) := by
    rw [← ofSession_sequence]
    simpa using h
  rw [sequenceSession_eq] at hmem
  obtain ⟨before, after, hsession⟩ := List.append_of_mem hmem
  obtain ⟨earlier, origin, later, -, -, rfl, -⟩ := exists_of_signal_eq_append hsession
  cases hnext : successor? mode origin later <;> simp [withSignals]

/-- Sequenced entries are ordered by session, and within a session by position. -/
theorem ascending_sequence {entries : List Entry} (hcells : (entries.map cell).Nodup) :
    Ascending (fun entry => (entry.sessionKey, entry.position)) (sequence mode entries) := by
  have hkey : ∀ key, ∀ entry ∈ sequenceSession mode (ofSession key entries),
      entry.sessionKey = key :=
    fun key => sessionKey_of_mem_sequenceSession fun entry h => (mem_ofSession.1 h).2
  rw [sequence_eq]
  refine List.pairwise_flatMap.2 ⟨fun key _ => ?_, ?_⟩
  · have hsession : Ascending position (sequenceSession mode (ofSession key entries)) :=
      (ascending_position (nodup_cell_iff.1 hcells key)).congr_map
        (map_eq_of_map_bare_eq position_bare (map_bare_sequenceSession mode _)).symm
    refine List.Pairwise.imp_of_mem ?_ hsession
    intro a b ha hb hlt
    exact compare_pair_eq_lt.2 (.inr ⟨(hkey key a ha).trans (hkey key b hb).symm, hlt⟩)
  · refine (ascending_distinct (entries.map sessionKey)).imp ?_
    intro key key' hlt a ha b hb
    refine compare_pair_eq_lt.2 (.inl ?_)
    dsimp only
    rw [hkey key a ha, hkey key' b hb]
    exact hlt

end Funnel.Entry
