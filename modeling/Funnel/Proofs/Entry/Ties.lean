import Mathlib
import Funnel.Proofs.Entry.Representatives

/-!
# Events that tie

Events of one slot that have the same time and type may differ in their dimensions. This is all that
depends on the order of the events: without such a tie they make the same entries in every order,
and with one they do not.
-/

namespace Funnel

/-- An event without its dimensions. -/
def ClassifiedEvent.undimensioned (event : ClassifiedEvent) : ClassifiedEvent :=
  { event with dimensions := .empty }

/-- An entry without its dimensions. -/
def Entry.undimensioned (entry : Entry) : Entry :=
  { entry with dimensions := .empty }

namespace ClassifiedEvent

theorem slot_undimensioned (event : ClassifiedEvent) : event.undimensioned.slot = event.slot := rfl

theorem precedence_undimensioned (event : ClassifiedEvent) :
    event.undimensioned.precedence = event.precedence := rfl

theorem enters?_undimensioned (event : ClassifiedEvent) :
    event.undimensioned.enters? = event.enters?.map Entry.undimensioned := by
  unfold enters?
  rw [Option.map_map]
  rfl

end ClassifiedEvent

namespace Canonical

open ClassifiedEvent

variable {events others : List ClassifiedEvent}

/-- The events that top a slot have the same dimensions. -/
def Settled (events : List ClassifiedEvent) : Prop :=
  ∀ a ∈ events, ∀ b ∈ events, a.slot = b.slot → a.Tops events → b.Tops events →
    a.dimensions = b.dimensions

theorem ofEvents_eq_of_settled (h : Settled events) (hperm : events.Perm others) :
    ofEvents events = ofEvents others := by
  have hkept : kept events = kept others :=
    kept_eq_of_perm hperm fun a ha b hb hslot ha_tops hb_tops =>
      eq_of_slot_eq hslot (ha_tops.precedence_eq hb_tops ha hb hslot)
        (h a ha b hb hslot ha_tops hb_tops)
  simp only [ofEvents, hkept, hperm.length_eq]

/-- Dimensions have no part in what is kept. -/
theorem ofEvents_map_undimensioned (events : List ClassifiedEvent) :
    ofEvents (events.map ClassifiedEvent.undimensioned) =
      { entries := (ofEvents events).entries.map Entry.undimensioned
        unmapped := (ofEvents events).unmapped.map ClassifiedEvent.undimensioned
        duplicates := (ofEvents events).duplicates } :=
  ofEvents_map slot_undimensioned
    (fun a b => by rw [precedence_undimensioned, precedence_undimensioned])
    enters?_undimensioned events

theorem settled_map_undimensioned (events : List ClassifiedEvent) :
    Settled (events.map ClassifiedEvent.undimensioned) := by
  intro a ha b hb _ _ _
  obtain ⟨event, -, rfl⟩ := List.mem_map.1 ha
  obtain ⟨other, -, rfl⟩ := List.mem_map.1 hb
  rfl

/-- Whatever the order of the events, the same is kept up to dimensions. -/
theorem map_undimensioned_of_perm (hperm : events.Perm others) :
    (ofEvents others).duplicates = (ofEvents events).duplicates ∧
      (ofEvents others).entries.map Entry.undimensioned =
        (ofEvents events).entries.map Entry.undimensioned ∧
      (ofEvents others).unmapped.map ClassifiedEvent.undimensioned =
        (ofEvents events).unmapped.map ClassifiedEvent.undimensioned := by
  have hsame := ofEvents_eq_of_settled (settled_map_undimensioned events) (hperm.map _)
  rw [ofEvents_map_undimensioned, ofEvents_map_undimensioned, Canonical.mk.injEq] at hsame
  obtain ⟨hentries, hunmapped, hduplicates⟩ := hsame
  exact ⟨hduplicates.symm, hentries.symm, hunmapped.symm⟩

/-- An event that tops its slot stands for it if it comes first. -/
theorem mem_kept_cons_of_tops {event : ClassifiedEvent} (h : event.Tops (event :: events)) :
    event ∈ kept (event :: events) := by
  have hstands : StandsAt (event :: events) ⟨0, Nat.zero_lt_succ _⟩ :=
    ⟨h, fun j hj => absurd hj (Nat.not_lt_zero _)⟩
  exact hstands.mem_kept

/-- What is made of the events that stand for their slots tells the dimensions of each of them. -/
theorem dimensions_eq_of_mem_kept (h : ofEvents events = ofEvents others) {a b : ClassifiedEvent}
    (ha : a ∈ kept events) (hb : b ∈ kept others) (hslot : a.slot = b.slot) :
    a.dimensions = b.dimensions := by
  cases hrank : a.stepRank with
  | none =>
    have hmem : a ∈ (ofEvents events).unmapped :=
      List.mem_filter.2 ⟨ha, by rw [hrank]; rfl⟩
    rw [h] at hmem
    rw [eq_of_mem_kept (List.mem_filter.1 hmem).1 hb hslot]
  | some rank =>
    obtain ⟨entry, hentry⟩ : ∃ entry, a.enters? = some entry :=
      Option.isSome_iff_exists.1 (by rw [enters?, Option.isSome_map, hrank]; rfl)
    have hmem : entry ∈ (ofEvents events).entries := mem_entries_iff.2 ⟨a, ha, hentry⟩
    rw [h] at hmem
    obtain ⟨c, hc, hc_entry⟩ := mem_entries_iff.1 hmem
    have hc_slot : c.slot = b.slot := by
      rw [← slot_of_enters? hc_entry, slot_of_enters? hentry, hslot]
    obtain rfl := eq_of_mem_kept hc hb hc_slot
    have ha_dimensions := congrArg Entry.dimensions (enters?_eq_some_iff.1 hentry).2
    have hc_dimensions := congrArg Entry.dimensions (enters?_eq_some_iff.1 hc_entry).2
    exact ha_dimensions.symm.trans hc_dimensions

/-- Only events without ties make the same in every order: of two that tie, each comes first in some
order. -/
theorem settled_of_forall_perm
    (h : ∀ others, events.Perm others → ofEvents others = ofEvents events) : Settled events := by
  intro a ha b hb hslot ha_tops hb_tops
  have hfirst : ∀ {c}, c ∈ events → c.Tops events → c ∈ kept (c :: events.erase c) := by
    intro c hc hc_tops
    exact mem_kept_cons_of_tops fun other hother =>
      hc_tops other ((List.perm_cons_erase hc).mem_iff.2 hother)
  have hsame : ofEvents (a :: events.erase a) = ofEvents (b :: events.erase b) :=
    (h _ (List.perm_cons_erase ha)).trans (h _ (List.perm_cons_erase hb)).symm
  exact dimensions_eq_of_mem_kept hsame (hfirst ha ha_tops) (hfirst hb hb_tops) hslot

/-- In every order the same events make the same entries, leave the same events of no step and have
as many dropped, dimensions aside. With dimensions they do so in every order exactly if no events of
different dimensions top the same slot. -/
theorem ofEvents_perm_up_to_ties (events : List ClassifiedEvent) :
    (∀ others, events.Perm others →
      (ofEvents others).duplicates = (ofEvents events).duplicates ∧
        (ofEvents others).entries.map Entry.undimensioned =
          (ofEvents events).entries.map Entry.undimensioned ∧
        (ofEvents others).unmapped.map ClassifiedEvent.undimensioned =
          (ofEvents events).unmapped.map ClassifiedEvent.undimensioned) ∧
      ((∀ others, events.Perm others → ofEvents others = ofEvents events) ↔ Settled events) :=
  ⟨fun _ => map_undimensioned_of_perm, settled_of_forall_perm,
    fun h _ hperm => (ofEvents_eq_of_settled h hperm).symm⟩

/-- Two events of the same step, time and type that differ in their dimensions. -/
def tiedEvents : List ClassifiedEvent :=
  [{ user := "ann", session := "s1", eventType := "home", stepName := "Home", stepRank := some 1,
      occurredAt := ⟨10⟩, dimensions := NameMap.ofList [("os", some "ios")] },
    { user := "ann", session := "s1", eventType := "home", stepName := "Home", stepRank := some 1,
      occurredAt := ⟨10⟩, dimensions := NameMap.ofList [("os", some "web")] }]

/-- The order in which two events come decides which dimensions the entry of their slot has. -/
theorem ofEvents_tiedEvents_reverse :
    tiedEvents.Perm tiedEvents.reverse ∧
      (ofEvents tiedEvents).entries.map (fun entry => entry.dimensions.value "os") =
        [some "ios"] ∧
      (ofEvents tiedEvents.reverse).entries.map (fun entry => entry.dimensions.value "os") =
        [some "web"] := by
  refine ⟨(List.reverse_perm _).symm, ?_, ?_⟩
  · cbv
  · cbv

end Canonical

end Funnel
