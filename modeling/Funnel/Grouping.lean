/-!
# Sorting and grouping lists by key

Every relation of this library is listed in the order of a key: entries by user, session and time,
metrics by dimension combination. This module holds the four list operations that put them there.
-/

namespace Funnel

open Std

instance instOrdPair {α β : Type} [Ord α] [Ord β] : Ord (α × β) := lexOrd

variable {α κ : Type} [Ord κ]

/-- A list in ascending order of key; elements of equal keys keep their order. -/
def sortOn (key : α → κ) (xs : List α) : List α :=
  xs.mergeSort fun a b => (compare (key a) (key b)).isLE

/-- Cuts a list wherever the key changes. -/
def runs (key : α → κ) : List α → List (κ × List α)
  | [] => []
  | x :: xs =>
    match runs key xs with
    | [] => [(key x, [x])]
    | (k, group) :: rest =>
      if compare (key x) k = .eq then (k, x :: group) :: rest
      else (key x, [x]) :: (k, group) :: rest

/-- The elements of a list by key: keys ascend, and each group keeps the list's order. -/
def groupBy (key : α → κ) (xs : List α) : List (κ × List α) :=
  runs key (sortOn key xs)

/-- The elements of a list in ascending order, each once. -/
def distinct (xs : List κ) : List κ :=
  (groupBy id xs).map Prod.fst

/-- The first element whose key no other key exceeds. -/
def firstMaxOn? (key : α → κ) : List α → Option α
  | [] => none
  | x :: xs =>
    some (xs.foldl (fun best y => if (compare (key best) (key y)).isLT then y else best) x)

/-- The first element whose key is below no other key. -/
def firstMinOn? (key : α → κ) : List α → Option α
  | [] => none
  | x :: xs =>
    some (xs.foldl (fun best y => if (compare (key y) (key best)).isLT then y else best) x)

def total (counts : List Nat) : Nat :=
  counts.foldr (· + ·) 0

/-- Cuts a list into parts of a size above zero, of which the last may be shorter. -/
def chunks {α : Type} (size : Nat) : List α → List (List α)
  | [] => []
  | x :: xs => (x :: xs.take (size - 1)) :: chunks size (xs.drop (size - 1))
termination_by xs => xs.length
decreasing_by
  simp only [List.length_drop, List.length_cons]
  omega

theorem flatten_chunks {α : Type} (size : Nat) (xs : List α) : (chunks size xs).flatten = xs := by
  fun_induction chunks size xs with
  | case1 => rfl
  | case2 x xs ih => simp [ih]

/-- Cutting a list into runs loses nothing: the runs, one after the other, are the list. -/
theorem flatMap_runs (key : α → κ) (xs : List α) :
    (runs key xs).flatMap Prod.snd = xs := by
  induction xs with
  | nil => rfl
  | cons x xs ih =>
    cases h : runs key xs with
    | nil => simp [runs, h] at ih ⊢; exact ih
    | cons run rest =>
      obtain ⟨k, group⟩ := run
      rw [h] at ih
      simp only [runs, h]
      split <;> simpa using ih

theorem sortOn_perm (key : α → κ) (xs : List α) : (sortOn key xs).Perm xs :=
  List.mergeSort_perm xs _

theorem flatMap_groupBy_perm (key : α → κ) (xs : List α) :
    ((groupBy key xs).flatMap Prod.snd).Perm xs := by
  rw [groupBy, flatMap_runs]
  exact sortOn_perm key xs

end Funnel
