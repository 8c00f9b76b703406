import Funnel.Proofs.Entry.Sequence

/-!
# Signals by place

The sequence of a session, told place by place: which entry stands where, which one is before it,
and at which place its session goes on.
-/

namespace Funnel

open Std Time

theorem Time.Instant.secondsSince_nonneg {earlier later : Instant} (h : earlier ≤ later) :
    0 ≤ later.secondsSince earlier := by
  have hmicros : 0 ≤ later.micros - earlier.micros := Int.sub_nonneg_of_le (Instant.le_iff.1 h)
  exact Int.tdiv_nonneg hmicros (by decide)

namespace Entry

variable {mode : ConversionMode} {session : List Entry}

/-- Along a row of ranks a session goes on from place `i` at place `j`: at the next place, or at
the first later one of a higher rank. -/
def GoesOnAt (mode : ConversionMode) (ranks : List UInt32) (i j : Nat) : Prop :=
  match mode with
  | .anyLaterEvent => j = i + 1 ∧ j < ranks.length
  | .higherRank =>
    IsLeast { k | i < k ∧ ∃ (_ : i < ranks.length) (_ : k < ranks.length), ranks[i] < ranks[k] } j

theorem GoesOnAt.lt {ranks : List UInt32} {i j : Nat} (h : GoesOnAt mode ranks i j) : i < j := by
  cases mode with
  | anyLaterEvent => exact h.1 ▸ Nat.lt_succ_self i
  | higherRank => exact h.1.1

section Signals

variable (hsignal : signal mode none session = session)
include hsignal

end Signals

end Entry

end Funnel
