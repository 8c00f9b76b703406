import Funnel.Event.Basic
import Funnel.Proofs.Grouping
import Funnel.Proofs.NameMap

/-!
# The step of an event type

An event type belongs to the first of the steps that claim it, by rank, however the steps are
listed.
-/

namespace Funnel

open Std

namespace Step

variable {steps : List Step} {eventType : String} {step : Step}

theorem claims_iff : step.claims eventType = true ↔ eventType ∈ step.eventTypes.names :=
  NameMap.isSome_get?

theorem resolve?_eq_none_iff :
    resolve? steps eventType = none ↔ ∀ step ∈ steps, eventType ∉ step.eventTypes.names := by
  simp [resolve?, List.find?_eq_none, claims_iff]

theorem mem_of_resolve? (h : resolve? steps eventType = some step) : step ∈ steps :=
  mem_sortOn.1 (List.mem_of_find?_eq_some h)

/-- The steps that claim an event type, in the order of their ranks. -/
def claimants (steps : List Step) (eventType : String) : List Step :=
  sortOn rank (steps.filter fun step => step.claims eventType)

theorem mem_claimants :
    step ∈ claimants steps eventType ↔ step ∈ steps ∧ eventType ∈ step.eventTypes.names := by
  rw [claimants, mem_sortOn, List.mem_filter, claims_iff]

theorem length_claimants :
    (claimants steps eventType).length =
      steps.countP fun step => eventType ∈ step.eventTypes.names := by
  rw [claimants, (sortOn_perm ..).length_eq, ← List.countP_eq_length_filter]
  refine List.countP_congr fun step _ => ?_
  rw [claims_iff, decide_eq_true_iff]

theorem ascending_claimants (hranks : (steps.map rank).Nodup) (eventType : String) :
    Ascending rank (claimants steps eventType) :=
  ascending_sortOn (hranks.sublist (List.filter_sublist.map rank))

/-- Steps of different ranks claim an event type in one order, however they are listed. -/
theorem claimants_eq_of_perm {others : List Step} (hranks : (steps.map rank).Nodup)
    (hperm : others.Perm steps) : claimants others eventType = claimants steps eventType := by
  refine (ascending_claimants ((hperm.map rank).nodup_iff.2 hranks) _).eq_of_mem_iff
    (ascending_claimants hranks _) fun step => ?_
  rw [mem_claimants, mem_claimants, hperm.mem_iff]

/-- An event type belongs to the first of the steps that claim it. -/
theorem resolve?_eq_head? (hranks : (steps.map rank).Nodup) :
    resolve? steps eventType = (claimants steps eventType).head? := by
  have hordered : Ascending rank (sortOn rank steps) := ascending_sortOn hranks
  have hperm : ((sortOn rank steps).filter fun step => step.claims eventType).Perm
      (claimants steps eventType) :=
    ((sortOn_perm rank steps).filter _).trans (sortOn_perm ..).symm
  rw [resolve?, ← List.head?_filter,
    (hordered.filter _).eq_of_perm (ascending_claimants hranks eventType) hperm]

/-- The events of a type have a rank, or none, and a name: in its place in any list an event of the
type is classified as itself with these. -/
def ClassifiesAs (steps : List Step) (eventType : String) (rank? : Option UInt32)
    (name : String) : Prop :=
  ∀ events, List.Forall₂ (fun event classified =>
      classified.eventType = event.eventType ∧
        (event.eventType = eventType →
          classified =
            { user := event.user
              session := event.session
              eventType := eventType
              stepName := name
              stepRank := rank?
              occurredAt := event.occurredAt
              dimensions := event.dimensions }))
    events (classify steps events)

theorem classifiesAs_of_resolve? {resolved : Option Step}
    (h : resolve? steps eventType = resolved) :
    ClassifiesAs steps eventType (resolved.map rank) ((resolved.map name).getD eventType) := by
  intro events
  rw [classify_eq, List.forall₂_map_right_iff, List.forall₂_same]
  intro event _
  refine ⟨rfl, ?_⟩
  rintro rfl
  rw [h]
  rfl

end Step

end Funnel
