import Funnel.Entry.Sequence
import Funnel.Proofs.Entry.Position
import Mathlib.Data.List.TakeWhile

/-!
# The entry by which a session goes on

What the stack of the pass has dropped is hidden by an entry in front that is not below it, so that
no earlier entry would have found it first.
-/

namespace Funnel.Entry

variable {mode : ConversionMode}

/-- The first of the later entries that counts as going on from an entry. -/
def successor? (mode : ConversionMode) (entry : Entry) (later : List Entry) : Option Entry :=
  match mode with
  | .anyLaterEvent => later.head?
  | .higherRank => later.find? fun other => entry.stepRank < other.stepRank

/-- The entries of a session in order, each with its signals; `previous` is the entry before
them. -/
def signal (mode : ConversionMode) (previous : Option Entry) : List Entry → List Entry
  | [] => []
  | entry :: later =>
    entry.withSignals previous (successor? mode entry later) :: signal mode (some entry) later

/-- What is in front of a list and fails a test does not matter to the first that passes it. -/
theorem find?_dropWhile {α : Type} {p q : α → Bool} {xs : List α}
    (h : ∀ x ∈ xs, p x = true → q x = false) : (xs.dropWhile p).find? q = xs.find? q := by
  have hdropped : (xs.takeWhile p).find? q = none := by
    refine List.find?_eq_none.2 fun x hx => ?_
    rw [h x ((List.takeWhile_sublist p).subset hx) (List.mem_takeWhile_imp hx)]
    exact Bool.false_ne_true
  calc (xs.dropWhile p).find? q
      = ((xs.takeWhile p).find? q).or ((xs.dropWhile p).find? q) := by rw [hdropped, Option.none_or]
    _ = (xs.takeWhile p ++ xs.dropWhile p).find? q := List.find?_append.symm
    _ = xs.find? q := by rw [List.takeWhile_append_dropWhile]

/-- The stack finds what all the later entries find, whichever rank is to be exceeded: where an
entry does not exceed it, what that entry hides does not either. -/
theorem find?_successors (rank : UInt32) (session : List Entry) :
    (successors .higherRank session).2.find? (fun other => rank < other.stepRank) =
      session.find? fun other => rank < other.stepRank := by
  induction session with
  | nil => rfl
  | cons entry later ih =>
    show (entry :: unhidden .higherRank entry (successors .higherRank later).2).find? _ = _
    by_cases hlt : rank < entry.stepRank
    · simp [hlt]
    · -- the entry hides what is not above it, and nothing of that is above the rank
      have hhidden : ∀ other ∈ (successors .higherRank later).2,
          decide (other.stepRank ≤ entry.stepRank) = true →
            decide (rank < other.stepRank) = false := by
        intro other _ hle
        have hle' := of_decide_eq_true hle
        exact decide_eq_false fun h => hlt (Std.lt_of_lt_of_le h hle')
      have hrest := find?_dropWhile hhidden
      rw [List.find?_cons_of_neg (by simpa using hlt), List.find?_cons_of_neg (by simpa using hlt)]
      exact hrest.trans ih

theorem successors_anyLaterEvent (session : List Entry) :
    (successors .anyLaterEvent session).2 = session := by
  induction session with
  | nil => rfl
  | cons entry later ih => exact congrArg (entry :: ·) ih

/-- What an entry leaves in front of the stack is the first of the later entries that counts. -/
theorem head?_unhidden (mode : ConversionMode) (entry : Entry) (later : List Entry) :
    (unhidden mode entry (successors mode later).2).head? = successor? mode entry later := by
  cases mode with
  | anyLaterEvent =>
    show (successors .anyLaterEvent later).2.head? = later.head?
    rw [successors_anyLaterEvent]
  | higherRank =>
    have habove : ∀ other : Entry, (!decide (other.stepRank ≤ entry.stepRank)) =
        decide (entry.stepRank < other.stepRank) := fun other => by
      rw [← decide_not]
      simp only [UInt32.not_le]
    calc ((successors .higherRank later).2.dropWhile
          fun other => other.stepRank ≤ entry.stepRank).head?
        = (successors .higherRank later).2.find? fun other => entry.stepRank < other.stepRank := by
          rw [← List.find?_not_eq_head?_dropWhile, funext habove]
      _ = later.find? fun other => entry.stepRank < other.stepRank :=
          find?_successors entry.stepRank later

theorem map_zip_successors (mode : ConversionMode) (previous : Option Entry)
    (session : List Entry) :
    (session.zip ((previous :: session.map some).zip (successors mode session).1)).map
        (fun (entry, previous, next) => entry.withSignals previous next) =
      signal mode previous session := by
  induction session generalizing previous with
  | nil => rfl
  | cons entry later ih =>
    rw [signal, ← head?_unhidden, ← ih (some entry)]
    rfl

/-- The sequence of a session, read plainly. -/
theorem sequenceSession_eq (mode : ConversionMode) (session : List Entry) :
    sequenceSession mode session = signal mode none (sortOn position session) :=
  map_zip_successors mode none _

end Funnel.Entry
