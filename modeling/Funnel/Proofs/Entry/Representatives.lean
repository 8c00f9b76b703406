import Funnel.Proofs.Entry.Canonical

/-!
# Which event stands for a slot

Events may be equal, so which of them stands for a slot is told by places in the list: one place for
each slot, and the events at all other places may as well be left out.
-/

namespace Funnel

open Std (OrientedOrd TransCmp)

/-- The slot of the event that an entry was made of. -/
def Entry.slot (entry : Entry) : String × String × String × Option UInt32 :=
  (entry.user, entry.session, entry.stepName, some entry.stepRank)

theorem ClassifiedEvent.slot_of_enters? {event : ClassifiedEvent} {entry : Entry}
    (h : event.enters? = some entry) : entry.slot = event.slot := by
  obtain ⟨hrank, hentry⟩ := enters?_eq_some_iff.1 h
  rw [hentry, Entry.slot, ClassifiedEvent.slot, hrank]

namespace Canonical

open ClassifiedEvent

variable {events : List ClassifiedEvent} {event : ClassifiedEvent}

/-- The event at a place stands for its slot: it is the first of those that top the slot. -/
structure StandsAt (events : List ClassifiedEvent) (i : Fin events.length) : Prop where
  tops : events[i].Tops events
  first : ∀ j < i, events[j].slot = events[i].slot → ¬ events[j].Tops events

/-- A slot has one place at which an event stands for it. -/
theorem StandsAt.eq_of_slot_eq {i j : Fin events.length} (hi : StandsAt events i)
    (hj : StandsAt events j) (hslot : events[i].slot = events[j].slot) : i = j := by
  rcases lt_trichotomy i j with hlt | heq | hlt
  · exact absurd hi.tops (hj.first i hlt hslot)
  · exact heq
  · exact absurd hj.tops (hi.first j hlt hslot.symm)

/-- In front of an event that is kept its slot has lesser events only. -/
theorem exists_split_of_mem_kept (h : event ∈ kept events) :
    ∃ before after, events = before ++ event :: after ∧ ∀ other ∈ before,
      other.slot = event.slot → compare other.precedence event.precedence = .lt := by
  obtain ⟨lesser, rest, hsplit, hlesser, -⟩ := firstMaxOn?_eq_some (mem_kept_iff.1 h)
  -- in front of the event stand the lesser ones of its slot and events of other slots
  obtain ⟨front, back, rfl, hfront, hback⟩ := List.filter_eq_append_iff.1 hsplit
  obtain ⟨passed, after, rfl, hpassed, -, -⟩ := List.filter_eq_cons_iff.1 hback
  refine ⟨front ++ passed, after, (List.append_assoc ..).symm, fun other hother hslot => ?_⟩
  rcases List.mem_append.1 hother with hother | hother
  · refine hlesser other ?_
    rw [← hfront]
    exact List.mem_filter.2 ⟨hother, decide_eq_true hslot⟩
  · exact absurd (decide_eq_true hslot) (hpassed other hother)

theorem exists_standsAt_of_mem_kept (h : event ∈ kept events) :
    ∃ i, StandsAt events i ∧ events[i] = event := by
  obtain ⟨before, after, hsplit, hbefore⟩ := exists_split_of_mem_kept h
  have hlength : before.length < events.length := by
    have hlengths := congrArg List.length hsplit
    rw [List.length_append, List.length_cons] at hlengths
    omega
  have hget : events[before.length] = event := List.getElem_of_append hsplit rfl
  refine ⟨⟨_, hlength⟩, ⟨?_, ?_⟩, hget⟩
  · rw [Fin.getElem_fin, hget]
    exact tops_of_mem_kept h
  · intro j hj hslot htops
    have hmem : events[j] ∈ before := by
      simp only [Fin.getElem_fin, hsplit, List.getElem_append_left hj]
      exact List.getElem_mem _
    rw [Fin.getElem_fin, Fin.getElem_fin, hget] at hslot
    have hle := tops_iff.1 htops event (mem_of_mem_kept h) hslot.symm
    rw [OrientedOrd.eq_swap (a := event.precedence), hbefore _ hmem hslot] at hle
    cases hle

theorem StandsAt.mem_kept {i : Fin events.length} (h : StandsAt events i) :
    events[i] ∈ kept events := by
  obtain ⟨other, hother, hslot⟩ := exists_mem_kept (List.getElem_mem i.isLt)
  obtain ⟨j, hj, rfl⟩ := exists_standsAt_of_mem_kept hother
  exact h.eq_of_slot_eq hj hslot.symm ▸ hother

/-- An event is kept if it stands for its slot at some place. -/
theorem mem_kept_iff_standsAt :
    event ∈ kept events ↔ ∃ i, StandsAt events i ∧ events[i] = event := by
  constructor
  · exact exists_standsAt_of_mem_kept
  · rintro ⟨i, hi, rfl⟩
    exact hi.mem_kept

/-- An event that is equal in slot to one that is kept, and kept itself, is that one. -/
theorem eq_of_mem_kept {a b : ClassifiedEvent} (ha : a ∈ kept events) (hb : b ∈ kept events)
    (hslot : a.slot = b.slot) : a = b :=
  List.inj_on_of_nodup_map (ascending_kept events).nodup_map ha hb hslot

section Places

variable {places : List (Fin events.length)}

/-- An event that stands for its slot also does so among some of the events, where its place is one
of theirs: those in front of it there are in front of it altogether. -/
theorem StandsAt.mem_kept_places (hplaces : places.Pairwise (· < ·)) {i : Fin events.length}
    (h : StandsAt events i) (hi : i ∈ places) :
    events[i] ∈ kept (places.map fun i => events[i]) := by
  obtain ⟨q, rfl⟩ := List.mem_iff_get.1 hi
  have hget : ∀ p : Fin (places.map fun i => events[i]).length,
      (places.map fun i => events[i])[p] = events[places.get (p.cast (List.length_map _))] :=
    fun p => List.getElem_map _
  let place := q.cast (List.length_map (fun i : Fin events.length => events[i])).symm
  have hstands : StandsAt (places.map fun i => events[i]) place := by
    refine ⟨?_, fun p hp hslot htops => ?_⟩
    · rw [hget]
      intro other hother
      obtain ⟨j, -, rfl⟩ := List.mem_map.1 hother
      exact h.tops _ (List.getElem_mem _)
    · rw [hget, hget] at hslot
      rw [hget] at htops
      refine h.first _ (List.pairwise_iff_get.1 hplaces _ _ hp) hslot ?_
      -- what is not exceeded by the event that stands for the slot is not exceeded at all
      intro other hother hother_slot
      have hevent : events[places.get q] ∈ places.map fun i => events[i] :=
        List.mem_map_of_mem hi
      exact TransCmp.isLE_trans (h.tops other hother (hother_slot.trans hslot))
        (htops _ hevent hslot.symm)
  have hkept := hstands.mem_kept
  rwa [hget] at hkept

/-- Only the events that stand for their slots matter. -/
theorem kept_places (hplaces : places.Pairwise (· < ·))
    (hall : ∀ i, StandsAt events i → i ∈ places) :
    kept (places.map fun i => events[i]) = kept events := by
  have hkept : ∀ event ∈ kept events, event ∈ kept (places.map fun i => events[i]) := by
    intro event hevent
    obtain ⟨i, hi, rfl⟩ := exists_standsAt_of_mem_kept hevent
    exact hi.mem_kept_places hplaces (hall i hi)
  refine (ascending_kept _).eq_of_mem_iff (ascending_kept events) fun event =>
    ⟨fun h => ?_, hkept event⟩
  obtain ⟨i, -, rfl⟩ := List.mem_map.1 (mem_of_mem_kept h)
  obtain ⟨other, hother, hslot⟩ := exists_mem_kept (List.getElem_mem i.isLt)
  exact eq_of_mem_kept (hkept other hother) h hslot ▸ hother

end Places

/-- What is kept of some events. -/
structure KeepsOneOfEach (events : List ClassifiedEvent) (canonical : Canonical) : Prop where
  /-- An entry has all it says from one event of its rank that stands for a slot. -/
  entries_iff : ∀ entry, entry ∈ canonical.entries ↔
    ∃ i, StandsAt events i ∧ events[i].stepRank = some entry.stepRank ∧
      entry =
        { user := events[i].user
          session := events[i].session
          stepName := events[i].stepName
          stepRank := entry.stepRank
          enteredAt := events[i].occurredAt
          dimensions := events[i].dimensions }
  /-- An event of no step is one that stands for a slot. -/
  unmapped_iff : ∀ event, event ∈ canonical.unmapped ↔
    ∃ i, StandsAt events i ∧ events[i].stepRank = none ∧ events[i] = event
  /-- Entries and events of no step are one for each slot. -/
  slots : (canonical.entries.map Entry.slot ++
    canonical.unmapped.map ClassifiedEvent.slot).Perm (events.map ClassifiedEvent.slot).dedup
  /-- Entries stand in order of user, session, step name and rank. -/
  ascending : Ascending (fun entry : Entry =>
    (entry.user, entry.session, entry.stepName, entry.stepRank)) canonical.entries
  /-- All other events are counted. -/
  count : canonical.entries.length + canonical.unmapped.length + canonical.duplicates =
    events.length

theorem map_slot_entries (events : List ClassifiedEvent) :
    (ofEvents events).entries.map Entry.slot =
      ((kept events).filter fun event => event.stepRank.isSome).map ClassifiedEvent.slot := by
  show ((kept events).filterMap enters?).map Entry.slot = _
  rw [← List.filterMap_eq_map (f := ClassifiedEvent.slot), List.filterMap_filter,
    List.map_filterMap]
  refine List.filterMap_congr fun event _ => ?_
  cases hrank : event.stepRank with
  | none => simp [enters?, hrank]
  | some rank => simp [enters?, hrank, Entry.slot, ClassifiedEvent.slot]

/-- Together entries and events of no step have each slot once. -/
theorem slots_ofEvents_perm (events : List ClassifiedEvent) :
    ((ofEvents events).entries.map Entry.slot ++
      (ofEvents events).unmapped.map ClassifiedEvent.slot).Perm
        (events.map ClassifiedEvent.slot).dedup := by
  have hsplit : ((ofEvents events).entries.map Entry.slot ++
      (ofEvents events).unmapped.map ClassifiedEvent.slot).Perm
        ((kept events).map ClassifiedEvent.slot) := by
    rw [map_slot_entries, ← List.map_append]
    have hunmapped : (ofEvents events).unmapped =
        (kept events).filter fun event => !event.stepRank.isSome := by
      simp [ofEvents]
    rw [hunmapped]
    exact (List.filter_append_perm _ _).map _
  refine hsplit.trans ((List.perm_ext_iff_of_nodup (ascending_kept events).nodup_map
    (List.nodup_dedup _)).2 fun key => ?_)
  rw [List.mem_dedup, List.mem_map, List.mem_map]
  constructor
  · rintro ⟨event, hevent, rfl⟩
    exact ⟨event, mem_of_mem_kept hevent, rfl⟩
  · rintro ⟨event, hevent, rfl⟩
    exact exists_mem_kept hevent

theorem ascending_entries (events : List ClassifiedEvent) :
    Ascending (fun entry : Entry => (entry.user, entry.session, entry.stepName, entry.stepRank))
      (ofEvents events).entries := by
  refine List.pairwise_filterMap.2 ((ascending_kept events).imp ?_)
  intro a b hlt entry hentry entry' hentry'
  rw [← slot_of_enters? hentry, ← slot_of_enters? hentry'] at hlt
  exact hlt

theorem keepsOneOfEach_ofEvents (events : List ClassifiedEvent) :
    KeepsOneOfEach events (ofEvents events) where
  entries_iff entry := by
    rw [mem_entries_iff]
    constructor
    · rintro ⟨event, hevent, hentry⟩
      obtain ⟨i, hi, rfl⟩ := mem_kept_iff_standsAt.1 hevent
      exact ⟨i, hi, enters?_eq_some_iff.1 hentry⟩
    · rintro ⟨i, hi, hentry⟩
      exact ⟨events[i], hi.mem_kept, enters?_eq_some_iff.2 hentry⟩
  unmapped_iff event := by
    show event ∈ (kept events).filter _ ↔ _
    rw [List.mem_filter, Option.isNone_iff_eq_none, mem_kept_iff_standsAt]
    constructor
    · rintro ⟨⟨i, hi, rfl⟩, hrank⟩
      exact ⟨i, hi, hrank, rfl⟩
    · rintro ⟨i, hi, hrank, rfl⟩
      exact ⟨⟨i, hi, rfl⟩, hrank⟩
  slots := slots_ofEvents_perm events
  ascending := ascending_entries events
  count := by
    have hkept := length_kept events
    have hle := length_kept_le events
    have hduplicates : (ofEvents events).duplicates = events.length - (kept events).length := rfl
    omega

/-- Of each slot one event is kept, whole, and it is the first of those that top the slot. Any part
of the events that has them all makes the same entries, and leaves the same events of no step. -/
theorem ofEvents_keeps_one_of_each (events : List ClassifiedEvent) :
    KeepsOneOfEach events (ofEvents events) ∧
      ∀ places : List (Fin events.length), places.Pairwise (· < ·) →
        (∀ i, StandsAt events i → i ∈ places) →
          (ofEvents (places.map fun i => events[i])).entries = (ofEvents events).entries ∧
            (ofEvents (places.map fun i => events[i])).unmapped = (ofEvents events).unmapped := by
  refine ⟨keepsOneOfEach_ofEvents events, fun places hplaces hall => ?_⟩
  simp only [ofEvents, kept_places hplaces hall, and_self]

end Canonical

end Funnel
