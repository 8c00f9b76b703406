import Funnel.Proofs.Entry.Attributes
import Mathlib.Data.List.Forall2

/-!
# What the mode of conversion does to entries

Of two sequences of the same entries, one in each mode, the one where any later entry counts
converts whatever the other does, no later. They agree on everything else.
-/

namespace Funnel

open Std Time

/-- An element of the first of two lists that correspond to each other has a partner in the
second. -/
theorem exists_mem_of_forall₂ {α β : Type} {R : α → β → Prop} {xs : List α} {ys : List β}
    (h : List.Forall₂ R xs ys) {x : α} (hx : x ∈ xs) : ∃ y ∈ ys, R x y := by
  induction h with
  | nil => cases hx
  | cons hhead _ ih =>
    rcases List.mem_cons.1 hx with rfl | hx
    · exact ⟨_, List.mem_cons_self .., hhead⟩
    · obtain ⟨y, hy, hpartner⟩ := ih hx
      exact ⟨y, List.mem_cons_of_mem _ hy, hpartner⟩

namespace Time.Instant

variable {earlier later : Instant}

theorem secondsSince_eq_ediv (h : earlier ≤ later) :
    later.secondsSince earlier = (later.micros - earlier.micros) / microsPerSecond :=
  Int.tdiv_eq_ediv_of_nonneg (Int.sub_nonneg_of_le (le_iff.1 h))

/-- Whole seconds are no more than the time they count. -/
theorem secondsSince_mul_le (h : earlier ≤ later) :
    later.secondsSince earlier * microsPerSecond ≤ later.micros - earlier.micros := by
  rw [secondsSince_eq_ediv h]
  exact Int.ediv_mul_le _ (by decide)

/-- Counting whole seconds drops less than a second. -/
theorem sub_le_secondsSince_mul (h : earlier ≤ later) :
    later.micros - earlier.micros ≤
      later.secondsSince earlier * microsPerSecond + (microsPerSecond - 1) := by
  have hmod := Int.emod_lt_of_pos (later.micros - earlier.micros)
    (show 0 < microsPerSecond by decide)
  have hdiv := Int.ediv_mul_add_emod (later.micros - earlier.micros) microsPerSecond
  rw [secondsSince_eq_ediv h]
  omega

theorem secondsSince_le (h : earlier ≤ later) (start : Instant) :
    earlier.secondsSince start ≤ later.secondsSince start := by
  refine Int.tdiv_le_tdiv (by decide) ?_
  rw [le_iff] at h
  omega

end Time.Instant

namespace Entry

/-- An entry apart from whether, when and after how many seconds its session went on from it. -/
def withoutConversion (entry : Entry) : Entry :=
  { entry with
    nextEnteredAt := none
    converted := false
    secondsToConvert := none }

/-- An entry and another one differ in conversion only, and if the first is converted, so is the
second, no later and after no more seconds. -/
structure ConvertsNoLater (entry entry' : Entry) : Prop where
  same : entry'.withoutConversion = entry.withoutConversion
  converted : entry.converted = true → ∃ time time' seconds seconds',
    entry.nextEnteredAt = some time ∧ entry.secondsToConvert = some seconds ∧
      entry'.converted = true ∧ entry'.nextEnteredAt = some time' ∧
      entry'.secondsToConvert = some seconds' ∧ time' ≤ time ∧ seconds' ≤ seconds

theorem ConvertsNoLater.bare_eq {entry entry' : Entry} (h : entry.ConvertsNoLater entry') :
    entry'.bare = entry.bare := by
  show entry'.withoutConversion.bare = entry.withoutConversion.bare
  rw [h.same]

theorem map_bare_eq {entries entries' : List Entry}
    (h : List.Forall₂ ConvertsNoLater entries entries') : entries'.map bare = entries.map bare := by
  induction h with
  | nil => rfl
  | cons hentry _ ih => rw [List.map_cons, List.map_cons, hentry.bare_eq, ih]

theorem ConvertsNoLater.withDimensions {entry entry' : Entry} (h : entry.ConvertsNoLater entry')
    (dimensions : Dimensions) :
    (entry.withDimensions dimensions).ConvertsNoLater (entry'.withDimensions dimensions) where
  same := congrArg (fun e => e.withDimensions dimensions) h.same
  converted := h.converted

/-- The next entry is not later than the next one of a higher rank. -/
theorem exists_successor?_anyLaterEvent {entry next : Entry} {later : List Entry}
    (hlater : later.Pairwise fun a b => a.enteredAt ≤ b.enteredAt)
    (h : successor? .higherRank entry later = some next) :
    ∃ first, successor? .anyLaterEvent entry later = some first ∧
      first.enteredAt ≤ next.enteredAt := by
  have hnext : next ∈ later := List.mem_of_find?_eq_some h
  cases later with
  | nil => cases hnext
  | cons first rest =>
    refine ⟨first, rfl, ?_⟩
    rcases List.mem_cons.1 hnext with rfl | hnext
    · exact le_rfl
    · exact (List.pairwise_cons.1 hlater).1 next hnext

theorem convertsNoLater_withSignals (entry : Entry) (previous : Option Entry) {later : List Entry}
    (hlater : later.Pairwise fun a b => a.enteredAt ≤ b.enteredAt) :
    (entry.withSignals previous (successor? .higherRank entry later)).ConvertsNoLater
      (entry.withSignals previous (successor? .anyLaterEvent entry later)) := by
  refine ⟨rfl, fun hconverted => ?_⟩
  obtain ⟨next, hnext⟩ := Option.isSome_iff_exists.1 hconverted
  obtain ⟨first, hfirst, hle⟩ := exists_successor?_anyLaterEvent hlater hnext
  rw [hnext, hfirst]
  exact ⟨_, _, _, _, rfl, rfl, rfl, rfl, rfl, hle, Instant.secondsSince_le hle _⟩

theorem forall₂_signal (previous : Option Entry) {session : List Entry}
    (h : session.Pairwise fun a b => a.enteredAt ≤ b.enteredAt) :
    List.Forall₂ ConvertsNoLater (signal .higherRank previous session)
      (signal .anyLaterEvent previous session) := by
  induction session generalizing previous with
  | nil => exact .nil
  | cons entry later ih =>
    have hlater := (List.pairwise_cons.1 h).2
    exact .cons (entry.convertsNoLater_withSignals previous hlater) (ih (some entry) hlater)

theorem pairwise_enteredAt_sortOn (session : List Entry) :
    (sortOn position session).Pairwise fun a b => a.enteredAt ≤ b.enteredAt :=
  (pairwise_sortOn position session).imp enteredAt_le_of_position_le

/-- Sequences of the same entries in both modes differ in conversion only, and where any later entry
counts, sessions go on from all entries from which they go on to a higher rank, no later. -/
theorem forall₂_sequence (entries : List Entry) :
    List.Forall₂ ConvertsNoLater (sequence .higherRank entries)
      (sequence .anyLaterEvent entries) := by
  refine List.rel_flatMap (R := Eq) (List.forall₂_refl (bySession entries)) ?_
  rintro group _ rfl
  dsimp only
  rw [sequenceSession_eq, sequenceSession_eq]
  exact forall₂_signal none (pairwise_enteredAt_sortOn group.2)

end Entry

end Funnel
