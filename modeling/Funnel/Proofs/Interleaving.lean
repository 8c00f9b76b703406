import Mathlib.Data.List.Basic

/-!
# Interleavings

A filter of a list and its opposite interleave to the list; and where two lists can be told apart by
some property, they are filters of what they interleave to.
-/

namespace Funnel

variable {α β : Type}

/-- A list has the elements of two others, those of each in their old order. -/
inductive Interleaves : List α → List α → List α → Prop
  | nil : Interleaves [] [] []
  | left {x : α} {xs ys zs : List α} : Interleaves xs ys zs → Interleaves (x :: xs) ys (x :: zs)
  | right {y : α} {xs ys zs : List α} : Interleaves xs ys zs → Interleaves xs (y :: ys) (y :: zs)

namespace Interleaves

variable {xs ys zs : List α}

theorem swap (h : Interleaves xs ys zs) : Interleaves ys xs zs := by
  induction h with
  | nil => exact .nil
  | left _ ih => exact .right ih
  | right _ ih => exact .left ih

theorem mem_iff (h : Interleaves xs ys zs) {a : α} : a ∈ zs ↔ a ∈ xs ∨ a ∈ ys := by
  induction h with
  | nil => simp
  | left _ ih => simp [ih, or_assoc]
  | right _ ih => simp [ih, or_left_comm]

theorem map (f : α → β) (h : Interleaves xs ys zs) :
    Interleaves (xs.map f) (ys.map f) (zs.map f) := by
  induction h with
  | nil => exact .nil
  | left _ ih => exact .left ih
  | right _ ih => exact .right ih

theorem of_filter (p : α → Bool) (zs : List α) :
    Interleaves (zs.filter p) (zs.filter fun a => !p a) zs := by
  induction zs with
  | nil => exact .nil
  | cons z zs ih =>
    by_cases hz : p z = true
    · simpa [hz] using ih.left
    · simpa [hz] using ih.right

/-- Elements with a property that no element of the second list has come from the first one. -/
theorem filter_eq_filter (h : Interleaves xs ys zs) {p : α → Bool} (hy : ∀ a ∈ ys, p a = false) :
    zs.filter p = xs.filter p := by
  induction h with
  | nil => rfl
  | @left x xs ys zs _ ih => rw [List.filter_cons, List.filter_cons, ih hy]
  | right _ ih =>
    rw [List.forall_mem_cons] at hy
    rw [List.filter_cons_of_neg (by simp [hy.1]), ih hy.2]

/-- The elements of the first list, if it is told apart from the second one by a property. -/
theorem filter_eq_left (h : Interleaves xs ys zs) {p : α → Bool} (hx : ∀ a ∈ xs, p a = true)
    (hy : ∀ a ∈ ys, p a = false) : zs.filter p = xs := by
  rw [h.filter_eq_filter hy]
  exact List.filter_eq_self.2 hx

theorem filter_eq_right (h : Interleaves xs ys zs) {p : α → Bool} (hx : ∀ a ∈ xs, p a = true)
    (hy : ∀ a ∈ ys, p a = false) : (zs.filter fun a => !p a) = ys :=
  h.swap.filter_eq_left (fun a ha => by simp [hy a ha]) fun a ha => by simp [hx a ha]

end Interleaves

end Funnel
