import Funnel.Entry.Basic
import Funnel.Proofs.Grouping
import Mathlib.Order.Bounds.Basic

namespace Funnel

open Std Time

namespace Time.Instant

instance : PartialOrder Instant where
  le a b := a.micros ≤ b.micros
  lt a b := a.micros < b.micros
  le_refl a := Int.le_refl a.micros
  le_trans a b c := Int.le_trans
  lt_iff_le_not_ge a b := by
    show a.micros < b.micros ↔ a.micros ≤ b.micros ∧ ¬ b.micros ≤ a.micros
    omega
  le_antisymm a b hab hba := by
    cases a
    cases b
    exact congrArg mk (Int.le_antisymm hab hba)

theorem le_iff {a b : Instant} : a ≤ b ↔ a.micros ≤ b.micros := Iff.rfl

theorem lt_iff {a b : Instant} : a < b ↔ a.micros < b.micros := Iff.rfl

theorem compare_eq_lt {a b : Instant} : compare a b = .lt ↔ a < b := by
  rw [compare_eq, lt_iff]
  exact Std.compare_eq_lt

theorem isLE_compare {a b : Instant} : (compare a b).isLE ↔ a ≤ b := by
  rw [compare_eq, le_iff]
  exact Std.isLE_compare

section Extremes

variable {α : Type} {xs : List α} {p : α → Prop}

/-- Of the times of some elements of a list, if there are any, one is the greatest. -/
theorem exists_isGreatest (time : α → Instant) (h : ∃ x ∈ xs, p x) :
    ∃ greatest, IsGreatest { t | ∃ x ∈ xs, p x ∧ time x = t } greatest := by
  classical
  obtain ⟨x, hx, hp⟩ := h
  have hmem : ∀ {y}, y ∈ xs.filter (fun x => p x) ↔ y ∈ xs ∧ p y := by simp
  obtain ⟨last, hlast⟩ :=
    exists_firstMaxOn? time (List.ne_nil_of_mem (hmem.2 ⟨hx, hp⟩))
  obtain ⟨hlast_mem, hlast_p⟩ := hmem.1 (mem_of_firstMaxOn? hlast)
  refine ⟨time last, ⟨last, hlast_mem, hlast_p, rfl⟩, ?_⟩
  rintro _ ⟨y, hy, hpy, rfl⟩
  exact isLE_compare.1 (isLE_of_firstMaxOn? hlast (hmem.2 ⟨hy, hpy⟩))

theorem exists_isLeast (time : α → Instant) (h : ∃ x ∈ xs, p x) :
    ∃ least, IsLeast { t | ∃ x ∈ xs, p x ∧ time x = t } least := by
  classical
  obtain ⟨x, hx, hp⟩ := h
  have hmem : ∀ {y}, y ∈ xs.filter (fun x => p x) ↔ y ∈ xs ∧ p y := by simp
  obtain ⟨first, hfirst⟩ :=
    exists_firstMinOn? time (List.ne_nil_of_mem (hmem.2 ⟨hx, hp⟩))
  obtain ⟨hfirst_mem, hfirst_p⟩ := hmem.1 (mem_of_firstMinOn? hfirst)
  refine ⟨time first, ⟨first, hfirst_mem, hfirst_p, rfl⟩, ?_⟩
  rintro _ ⟨y, hy, hpy, rfl⟩
  exact isLE_compare.1 (isLE_of_firstMinOn? hfirst (hmem.2 ⟨hy, hpy⟩))

end Extremes

end Time.Instant

namespace Entry

/-- Session and rank of an entry. -/
def cell (entry : Entry) : (String × String) × UInt32 :=
  (entry.sessionKey, entry.stepRank)

/-- An entry without the signals of its sequence. -/
def bare (entry : Entry) : Entry :=
  { entry with
    previousStep := none
    nextEnteredAt := none
    converted := false
    secondsToConvert := none }

/-- The entries of a session, in the order of the list. -/
def ofSession (key : String × String) (entries : List Entry) : List Entry :=
  entries.filter fun entry => entry.sessionKey = key

@[simp]
theorem mem_ofSession {key : String × String} {entries : List Entry} {entry : Entry} :
    entry ∈ ofSession key entries ↔ entry ∈ entries ∧ entry.sessionKey = key := by
  simp [ofSession]

theorem bySession_eq (entries : List Entry) :
    bySession entries =
      (distinct (entries.map sessionKey)).map fun key => (key, ofSession key entries) :=
  groupBy_eq sessionKey entries

theorem position_lt_iff {a b : Entry} (hne : a.stepRank ≠ b.stepRank) :
    compare a.position b.position = .lt ↔
      a.enteredAt < b.enteredAt ∨ a.enteredAt = b.enteredAt ∧ a.stepRank < b.stepRank := by
  simp only [position, compare_pair_eq_lt, Instant.compare_eq_lt, Std.compare_eq_lt]
  constructor
  · rintro (h | ⟨h, h' | ⟨h', -⟩⟩)
    · exact .inl h
    · exact .inr ⟨h, h'⟩
    · exact absurd h' hne
  · rintro (h | ⟨h, h'⟩)
    · exact .inl h
    · exact .inr ⟨h, .inl h'⟩

theorem enteredAt_le_of_position_le {a b : Entry}
    (h : (compare a.position b.position).isLE) : a.enteredAt ≤ b.enteredAt := by
  rcases isLE_compare_pair.1 h with h | ⟨h, -⟩
  · exact (Instant.compare_eq_lt.1 h).le
  · exact h.le

theorem enteredAt_le_of_position_lt {a b : Entry} (h : compare a.position b.position = .lt) :
    a.enteredAt ≤ b.enteredAt :=
  enteredAt_le_of_position_le (by rw [h]; rfl)

theorem enteredAt_lt_or_of_position_le {a b : Entry}
    (h : (compare a.position b.position).isLE) :
    a.enteredAt < b.enteredAt ∨ a.enteredAt = b.enteredAt ∧ a.stepRank ≤ b.stepRank := by
  rcases isLE_compare_pair.1 h with hlt | ⟨heq, hranks⟩
  · exact .inl (Instant.compare_eq_lt.1 hlt)
  · refine .inr ⟨heq, ?_⟩
    rcases isLE_compare_pair.1 hranks with hlt | ⟨hrank, -⟩
    · exact Std.le_of_lt (Std.compare_eq_lt.1 hlt)
    · exact Std.le_of_eq hrank

/-- The parts that a list is made of session by session can be told apart by session again. -/
theorem ofSession_flatMap_bySession {f : List Entry → List Entry} (hnil : f [] = [])
    (hkey : ∀ key session, (∀ entry ∈ session, entry.sessionKey = key) →
      ∀ entry ∈ f session, entry.sessionKey = key)
    (key : String × String) (entries : List Entry) :
    ofSession key ((bySession entries).flatMap fun group => f group.2) =
      f (ofSession key entries) := by
  have hmade : ∀ key, ∀ entry ∈ f (ofSession key entries), entry.sessionKey = key :=
    fun key => hkey key _ fun entry h => (mem_ofSession.1 h).2
  rw [bySession_eq, List.flatMap_map]
  -- only sessions with entries have a group
  by_cases hmem : key ∈ distinct (entries.map sessionKey)
  · let part := fun key => (key, f (ofSession key entries))
    have hparts : ∀ group ∈ (distinct (entries.map sessionKey)).map part,
        ∀ entry ∈ group.2, entry.sessionKey = group.1 := by
      intro group hgroup
      obtain ⟨key, -, rfl⟩ := List.mem_map.1 hgroup
      exact hmade key
    have hfilter := filter_flatMap_of_mem (Ascending.map.2 (ascending_distinct _)) hparts
      (List.mem_map_of_mem hmem)
    rw [List.flatMap_map] at hfilter
    exact hfilter
  · have hnone : ofSession key entries = [] := by
      refine List.filter_eq_nil_iff.2 fun entry hentry heq => hmem ?_
      rw [mem_distinct, List.mem_map]
      exact ⟨entry, hentry, of_decide_eq_true heq⟩
    rw [hnone, hnil]
    refine List.filter_eq_nil_iff.2 fun entry hentry heq => ?_
    obtain ⟨key', hkey', hentry⟩ := List.mem_flatMap.1 hentry
    have hkeys := hmade key' entry hentry
    rw [of_decide_eq_true heq] at hkeys
    exact hmem (hkeys ▸ hkey')

/-- Different cells are different ranks within every session. -/
theorem nodup_cell_iff {entries : List Entry} :
    (entries.map cell).Nodup ↔ ∀ key, ((ofSession key entries).map stepRank).Nodup := by
  constructor
  · intro h key
    have hsub := (List.filter_sublist (p := fun entry => entry.sessionKey = key)
      (l := entries)).map cell
    refine List.pairwise_map.2 ((List.pairwise_map.1 (h.sublist hsub)).imp_of_mem ?_)
    intro a b ha hb hne heq
    have hkey : a.sessionKey = b.sessionKey :=
      (mem_ofSession.1 ha).2.trans (mem_ofSession.1 hb).2.symm
    exact hne (Prod.ext hkey heq)
  · intro h
    refine List.pairwise_map.2 (List.pairwise_iff_forall_sublist.2 fun {a b} hsub heq => ?_)
    have hkey : a.sessionKey = b.sessionKey := congrArg Prod.fst heq
    have hpair : [a, b].Sublist (ofSession a.sessionKey entries) := by
      have hfilter := hsub.filter fun entry => entry.sessionKey = a.sessionKey
      simpa [ofSession, hkey] using hfilter
    have hranks := List.pairwise_map.1 (h a.sessionKey)
    exact List.pairwise_iff_forall_sublist.1 hranks hpair (congrArg Prod.snd heq)

theorem ascending_position {entries : List Entry} (h : (entries.map stepRank).Nodup) :
    Ascending position (sortOn position entries) := by
  refine ascending_sortOn (List.Nodup.of_map (fun p => p.2.1) ?_)
  rw [List.map_map]
  exact h

end Entry

end Funnel
