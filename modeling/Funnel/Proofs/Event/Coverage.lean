import Funnel.Event.Basic
import Funnel.Proofs.Redelivery

namespace Funnel

open Std

theorem total_map_add {α : Type} (f g : α → Nat) (xs : List α) :
    total (xs.map fun x => f x + g x) = total (xs.map f) + total (xs.map g) := by
  induction xs with
  | nil => rfl
  | cons x xs ih =>
    simp only [total, List.map_cons, List.foldr_cons] at ih ⊢
    omega

theorem total_map_eq_zero {α : Type} {f : α → Nat} {xs : List α} (h : ∀ x ∈ xs, f x = 0) :
    total (xs.map f) = 0 := by
  induction xs with
  | nil => rfl
  | cons x xs ih =>
    have hx := h x (List.mem_cons_self ..)
    have hxs := ih fun y hy => h y (List.mem_cons_of_mem _ hy)
    simp only [total, List.map_cons, List.foldr_cons] at hxs ⊢
    omega

/-- One of some different keys occurs among them once. -/
theorem total_map_ite_eq {κ : Type} [DecidableEq κ] {keys : List κ} {key : κ}
    (hnodup : keys.Nodup) (hmem : key ∈ keys) :
    total (keys.map fun k => if k = key then 1 else 0) = 1 := by
  induction keys with
  | nil => cases hmem
  | cons k keys ih =>
    obtain ⟨hk, hkeys⟩ := List.nodup_cons.1 hnodup
    by_cases heq : k = key
    · have hrest : total (keys.map fun k => if k = key then 1 else 0) = 0 :=
        total_map_eq_zero fun other hother => if_neg fun h => hk (by rwa [heq, ← h])
      simp only [total, List.map_cons, List.foldr_cons, heq, if_true] at hrest ⊢
      omega
    · have hrest := ih hkeys ((List.mem_cons.1 hmem).resolve_left (Ne.symm heq))
      simp only [total, List.map_cons, List.foldr_cons, heq, if_false] at hrest ⊢
      omega

/-- Counting for each of some different keys the elements that have it counts the elements that
have a key at all, if they have no others. -/
theorem total_map_countP {α κ : Type} [DecidableEq κ] {key? : α → Option κ} {keys : List κ}
    (hnodup : keys.Nodup) {xs : List α} (h : ∀ x ∈ xs, ∀ k, key? x = some k → k ∈ keys) :
    total (keys.map fun k => xs.countP fun x => key? x == some k) =
      xs.countP fun x => (key? x).isSome := by
  induction xs with
  | nil => exact total_map_eq_zero fun _ _ => rfl
  | cons x xs ih =>
    have hxs := ih fun y hy => h y (List.mem_cons_of_mem _ hy)
    simp only [List.countP_cons, total_map_add, hxs]
    cases hkey : key? x with
    | none =>
      have hnone : total (keys.map fun _ => 0) = 0 := total_map_eq_zero fun _ _ => rfl
      simpa using hnone
    | some key =>
      have hone := total_map_ite_eq hnodup (h x (List.mem_cons_self ..) key hkey)
      simp only [beq_iff_eq, Option.some.injEq, Option.isSome_some, if_true, eq_comm (a := key),
        hone]

/-- Groups have as many elements as they have together. -/
theorem total_length_groups {α κ : Type} (groups : List (κ × List α)) :
    total (groups.map fun group => group.2.length) = (groups.flatMap Prod.snd).length := by
  induction groups with
  | nil => rfl
  | cons group groups ih =>
    simp only [total, List.map_cons, List.foldr_cons, List.flatMap_cons, List.length_append] at ih ⊢
    omega

namespace Coverage

variable {steps : List Step} {events : List ClassifiedEvent}

theorem ofEvents_eq_of_perm (steps : List Step) {others : List ClassifiedEvent}
    (h : events.Perm others) :
    ofEvents steps events = ofEvents steps others := by
  have hunmapped := h.filter fun event => event.stepRank.isNone
  have htypes := distinct_congr fun _ => (hunmapped.map ClassifiedEvent.eventType).mem_iff
  simp only [ofEvents, groupBy_eq, List.map_map, Function.comp_def, htypes, h.countP_eq,
    (hunmapped.filter _).length_eq]

/-- The number of events that belong to a step. -/
theorem matchedCount_eq (h : ∀ event ∈ events, ∀ rank, event.stepRank = some rank →
      ∃ step ∈ steps, step.rank = rank) :
    (ofEvents steps events).matchedCount = events.countP fun event => event.stepRank.isSome := by
  have hranks : ∀ event ∈ events, ∀ rank, event.stepRank = some rank →
      rank ∈ distinct (steps.map Step.rank) := by
    intro event hevent rank hrank
    rw [mem_distinct, List.mem_map]
    exact h event hevent rank hrank
  rw [← total_map_countP (nodup_distinct _) hranks]
  simp only [matchedCount, ofEvents, List.map_map, Function.comp_def]

/-- The number of events that belong to no step. -/
theorem total_unmapped (steps : List Step) (events : List ClassifiedEvent) :
    total ((ofEvents steps events).unmapped.map Prod.snd) =
      events.countP fun event => event.stepRank.isNone := by
  let groups := groupBy ClassifiedEvent.eventType (events.filter fun event => event.stepRank.isNone)
  calc total ((ofEvents steps events).unmapped.map Prod.snd)
    _ = total (groups.map fun group => group.2.length) := by
      rw [ofEvents, List.map_map]
      rfl
    _ = (groups.flatMap Prod.snd).length := total_length_groups groups
    _ = (events.filter fun event => event.stepRank.isNone).length :=
      (flatMap_groupBy_perm _ _).length_eq
    _ = events.countP fun event => event.stepRank.isNone := List.countP_eq_length_filter.symm

/-- The events of no step are counted by type, for each type that one of them has. -/
theorem unmapped_eq (steps : List Step) (events : List ClassifiedEvent) :
    (ofEvents steps events).unmapped =
      (distinct ((events.filter fun event => event.stepRank.isNone).map
        ClassifiedEvent.eventType)).map fun eventType =>
          (eventType, events.countP fun event =>
            event.stepRank.isNone ∧ event.eventType = eventType) := by
  have hcount : ∀ eventType, ((events.filter fun event => event.stepRank.isNone).filter
      fun event => event.eventType = eventType).length =
        events.countP fun event => event.stepRank.isNone ∧ event.eventType = eventType := by
    intro eventType
    rw [List.filter_filter, List.countP_eq_length_filter]
    simp only [and_comm, Bool.decide_and, Bool.decide_eq_true]
  simp only [ofEvents, groupBy_eq, List.map_map, Function.comp_def, hcount]

/-- The number of events of a type that belong to no step. -/
theorem lookup_unmapped (steps : List Step) (events : List ClassifiedEvent) (eventType : String) :
    ((ofEvents steps events).unmapped.lookup eventType).getD 0 =
      events.countP fun event => event.stepRank.isNone ∧ event.eventType = eventType := by
  rw [unmapped_eq]
  refine getD_lookup_map fun hnot => List.countP_eq_zero.2 fun event hevent h => hnot ?_
  obtain ⟨hrank, htype⟩ := of_decide_eq_true h
  exact mem_distinct.2 (List.mem_map.2 ⟨event, List.mem_filter.2 ⟨hevent, hrank⟩, htype⟩)

/-- Events that come again are of the types that there are, and counted once more. -/
theorem unmapped_of_redelivers (steps : List Step) {copies others : List ClassifiedEvent}
    (h : Redelivers events copies others) :
    (ofEvents steps others).unmapped =
      (ofEvents steps events).unmapped.map fun (eventType, count) =>
        (eventType, count + copies.countP fun copy =>
          copy.stepRank.isNone ∧ copy.eventType = eventType) := by
  have htypes := distinct_congr fun _ =>
    ((h.filter fun event => event.stepRank.isNone).map ClassifiedEvent.eventType).mem_iff
  rw [unmapped_eq, unmapped_eq, htypes, List.map_map]
  refine List.map_congr_left fun eventType _ => ?_
  rw [h.perm.countP_eq, List.countP_append, Nat.add_comm]
  rfl

end Coverage

end Funnel
