import Mathlib
import Funnel.Proofs.Plan.Relation

/-!
# Steps that are passed at once

The entry of a rank that is filled in stands right in front of an entry of the same session, at the
same time and of a higher rank, whatever else the session reached at that time.
-/

namespace Funnel

open Std Time

/-- Its session goes on from an entry at the time at which it came there, and the next entry of the
session among those behind it has a higher rank. -/
structure Entry.IsPassedAtOnce (entry : Entry) (after : List Entry) : Prop where
  converted : entry.converted = true
  next : entry.nextEnteredAt = some entry.enteredAt
  seconds : entry.secondsToConvert = some 0
  higher : ∃ next, (Entry.ofSession entry.sessionKey after).head? = some next ∧
    next.enteredAt = entry.enteredAt ∧ entry.stepRank < next.stepRank

namespace Entry

/-- Within a session, places are ordered by time and rank. -/
theorem place_lt_iff {a b : Entry} (hkey : a.sessionKey = b.sessionKey) :
    compare a.place b.place = .lt ↔
      a.enteredAt < b.enteredAt ∨ a.enteredAt = b.enteredAt ∧ a.stepRank < b.stepRank := by
  obtain ⟨huser, hsession⟩ := Prod.mk.inj hkey
  simp only [place, compare_pair_eq_lt, Instant.compare_eq_lt, Std.compare_eq_lt, huser, hsession,
    Std.compare_self, reduceCtorEq, true_and, false_or]

theorem enteredAt_le_of_place_le {a b : Entry} (hkey : a.sessionKey = b.sessionKey)
    (h : (compare a.place b.place).isLE) : a.enteredAt ≤ b.enteredAt := by
  rcases Ordering.isLE_iff_eq_lt_or_eq_eq.1 h with hlt | heq
  · rcases (place_lt_iff hkey).1 hlt with hlt | ⟨hsame, -⟩
    · exact hlt.le
    · exact hsame.le
  · have hplace : a.place = b.place := LawfulEqOrd.eq_of_compare heq
    exact (congrArg (fun place => place.2.2.1) hplace).le

end Entry

namespace Plan

variable {plan : Plan} {events : List Event} {key : String × String} {rank : UInt32}
  {time : Instant}

/-- A rank that is filled in is reached together with a higher one. -/
theorem Reaches.exists_higher (h : plan.Reaches events key rank time true) :
    ∃ higher, rank < higher ∧ plan.Reaches events key higher time false := by
  cases h with
  | skipped _ _ _ earliest =>
    obtain ⟨higher, hlt, latest⟩ := earliest.1
    exact ⟨higher, hlt, .shown latest⟩

/-- From a rank that is filled in, its session goes on at the time at which it reaches it. -/
theorem Reaches.isLeast_onwardTimes (h : plan.Reaches events key rank time true) :
    IsLeast (plan.onwardTimes events key rank time) time := by
  obtain ⟨higher, hlt, hreaches⟩ := h.exists_higher
  refine ⟨⟨higher, false, hreaches, .inr ⟨rfl, hlt⟩, fun _ => hlt⟩, ?_⟩
  rintro later ⟨other, added, -, hbehind, -⟩
  exact hbehind.elim (fun hlater => hlater.le) fun hsame => hsame.1.le

/-- Behind an entry that is filled in, the next one of its session stands at the same time and has
a higher rank. -/
theorem IsRelation.exists_head?_of_backfilled {entries before after : List Entry} {entry : Entry}
    (h : plan.IsRelation events entries) (heq : entries = before ++ entry :: after)
    (hadded : entry.backfilled = true) :
    ∃ next, (Entry.ofSession entry.sessionKey after).head? = some next ∧
      next.enteredAt = entry.enteredAt ∧ entry.stepRank < next.stepRank := by
  have hentry : entry ∈ entries := by simp [heq]
  have hreaches := (h.sound entry hentry).1
  rw [hadded] at hreaches
  obtain ⟨higher, hlt, hhigher⟩ := hreaches.exists_higher
  obtain ⟨above, ⟨habove, habove_key, rfl⟩, -⟩ := h.complete _ _ _ _ hhigher
  have habove_reaches := (h.sound above habove).1
  rw [habove_key] at habove_reaches
  have habove_time : above.enteredAt = entry.enteredAt := (habove_reaches.unique hhigher).1
  -- the entry of the higher rank is still to come, and nothing of the session comes before it
  -- but what stands at the same time
  have hordered : Ascending Entry.place (before ++ entry :: after) := heq ▸ h.ordered
  have habove_after : above ∈ after :=
    hordered.mem_tail_of_lt (heq ▸ habove)
      ((Entry.place_lt_iff habove_key.symm).2 (.inr ⟨habove_time.symm, hlt⟩))
  have hasc : Ascending Entry.place (Entry.ofSession entry.sessionKey after) :=
    (hordered.sublist
      ((List.sublist_cons_self ..).trans (List.sublist_append_right ..))).filter _
  obtain ⟨next, hmem, hhead, hle⟩ :=
    hasc.exists_head?_of_mem (Entry.mem_ofSession.2 ⟨habove_after, habove_key⟩)
  obtain ⟨hnext, hnext_key⟩ := Entry.mem_ofSession.1 hmem
  have hnot_later : next.enteredAt ≤ entry.enteredAt :=
    habove_time ▸ Entry.enteredAt_le_of_place_le (hnext_key.trans habove_key.symm) hle
  rcases (Entry.place_lt_iff hnext_key.symm).1 (hordered.lt_of_mem_tail hnext) with
    hlater | ⟨hsame, hrank⟩
  · exact absurd hnot_later hlater.not_ge
  · exact ⟨next, hhead, hsame.symm, hrank⟩

/-- In a run every entry that is filled in is passed at once. -/
theorem run_passesAtOnce (plan : Plan) (events : List Event) (records : List AttributeRecord)
    (h : firstDefect? events = none) :
    ∃ output, plan.run events records = .ok output ∧
      ∀ before entry after, output.entries = before ++ entry :: after →
        entry.backfilled = true → entry.IsPassedAtOnce after := by
  refine ⟨plan.output events records, run_eq_ok_iff.2 ⟨h, rfl⟩, ?_⟩
  intro before entry after heq hadded
  have hrelation : plan.IsRelation events (plan.output events records).entries :=
    plan.isRelation_entries events records
  have hentry : entry ∈ (plan.output events records).entries := by simp [heq]
  have hreaches := (hrelation.sound entry hentry).1
  rw [hadded] at hreaches
  have hnext : entry.nextEnteredAt = some entry.enteredAt :=
    (nextEnteredAt_of_mem_entries hentry).2 hreaches.isLeast_onwardTimes
  refine ⟨?_, hnext, ?_, hrelation.exists_head?_of_backfilled heq hadded⟩
  · rw [hrelation.converted entry hentry, hnext]
    rfl
  · rw [hrelation.seconds entry hentry, hnext, Option.map_some, Instant.secondsSince, Int.sub_self]
    rfl

/-- A session of the shop that shows the last step only. -/
def directPurchase : List Event :=
  [{ user := "ann", session := "s1", eventType := "purchase", occurredAt := ⟨10⟩,
      dimensions := .empty }]

theorem run_checkout_passesAtOnce :
    firstDefect? directPurchase = none ∧
      (checkout.entries directPurchase []).map
          (fun entry => (entry.stepRank, entry.backfilled)) =
        [(1, true), (2, true), (3, false)] ∧
      ∃ output, checkout.run directPurchase [] = .ok output ∧
        ∀ before entry after, output.entries = before ++ entry :: after →
          entry.backfilled = true → entry.IsPassedAtOnce after := by
  have hentries : (checkout.entries directPurchase []).map
      (fun entry => (entry.stepRank, entry.backfilled)) =
        [(1, true), (2, true), (3, false)] := by cbv
  exact ⟨by decide, hentries, checkout.run_passesAtOnce directPurchase [] (by decide)⟩

end Plan

end Funnel
