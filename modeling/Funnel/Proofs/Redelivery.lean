import Funnel.Proofs.Grouping

namespace Funnel

open Std

variable {α β : Type}

/-- A list with some of its elements delivered again. Each copy is put in at any place behind an
equal element; the last copy put in is the first of the list of copies. -/
inductive Redelivers (xs : List α) : List α → List α → Prop
  | once : Redelivers xs [] xs
  | again {copies before after : List α} {x : α} (h : Redelivers xs copies (before ++ after))
      (delivered : x ∈ before) : Redelivers xs (x :: copies) (before ++ x :: after)

namespace Redelivers

variable {xs copies ys : List α}

/-- What arrives is what was sent and the copies. -/
theorem perm (h : Redelivers xs copies ys) : ys.Perm (copies ++ xs) := by
  induction h with
  | once => exact .refl xs
  | again _ _ ih => exact List.perm_middle.trans (ih.cons _)

theorem mem_iff (h : Redelivers xs copies ys) {a : α} : a ∈ ys ↔ a ∈ xs := by
  induction h with
  | once => exact Iff.rfl
  | again _ delivered ih =>
    rw [← ih, List.mem_append, List.mem_append, List.mem_cons]
    constructor
    · rintro (ha | rfl | ha)
      · exact .inl ha
      · exact .inl delivered
      · exact .inr ha
    · rintro (ha | ha)
      · exact .inl ha
      · exact .inr (.inr ha)

theorem map (f : α → β) (h : Redelivers xs copies ys) :
    Redelivers (xs.map f) (copies.map f) (ys.map f) := by
  induction h with
  | once => exact .once
  | again _ delivered ih =>
    rw [List.map_append] at ih
    rw [List.map_append, List.map_cons, List.map_cons]
    exact .again ih (List.mem_map_of_mem delivered)

theorem filter (p : α → Bool) (h : Redelivers xs copies ys) :
    Redelivers (xs.filter p) (copies.filter p) (ys.filter p) := by
  induction h with
  | once => exact .once
  | @again copies before after x _ delivered ih =>
    rw [List.filter_append] at ih
    rw [List.filter_append]
    by_cases hx : p x = true
    · rw [List.filter_cons_of_pos hx, List.filter_cons_of_pos hx]
      exact .again ih (List.mem_filter.2 ⟨delivered, hx⟩)
    · rw [List.filter_cons_of_neg hx, List.filter_cons_of_neg hx]
      exact ih

/-- A copy does not displace the first element of greatest key. -/
theorem firstMaxOn?_eq {κ : Type} [Ord κ] [TransOrd κ] (key : α → κ)
    (h : Redelivers xs copies ys) : firstMaxOn? key ys = firstMaxOn? key xs := by
  induction h with
  | once => rfl
  | again _ delivered ih => rw [firstMaxOn?_append_cons delivered, ih]

end Redelivers

end Funnel
