import Funnel.Entry.Canonical
import Funnel.Proofs.Entry.Position
import Funnel.Proofs.Redelivery

/-!
# Which events stand for their slots

Every slot that occurs among some events keeps exactly one of them, and that one is not earlier than
any other event of the slot.
-/

namespace Funnel

open Std Time

namespace ClassifiedEvent

/-- No event of its slot exceeds an event: none is later, and none at the same time has a greater
type. -/
def Tops (events : List ClassifiedEvent) (event : ClassifiedEvent) : Prop :=
  ∀ other ∈ events, other.slot = event.slot →
    (compare (other.occurredAt, other.eventType) (event.occurredAt, event.eventType)).isLE

theorem tops_iff {events : List ClassifiedEvent} {event : ClassifiedEvent} :
    event.Tops events ↔ ∀ other ∈ events, other.slot = event.slot →
      (compare other.precedence event.precedence).isLE :=
  Iff.rfl

theorem Tops.precedence_eq {events : List ClassifiedEvent} {a b : ClassifiedEvent}
    (ha : a.Tops events) (hb : b.Tops events) (ha_mem : a ∈ events) (hb_mem : b ∈ events)
    (hslot : a.slot = b.slot) : a.precedence = b.precedence :=
  LawfulEqOrd.eq_of_compare
    (OrientedCmp.isLE_antisymm (hb a ha_mem hslot) (ha b hb_mem hslot.symm))

/-- Slot, precedence and dimensions are all there is to an event. -/
theorem eq_of_slot_eq {a b : ClassifiedEvent} (hslot : a.slot = b.slot)
    (hprecedence : a.precedence = b.precedence) (hdimensions : a.dimensions = b.dimensions) :
    a = b := by
  simp only [slot, precedence, Prod.mk.injEq] at hslot hprecedence
  cases a
  cases b
  simp_all

theorem enters?_eq_some_iff {event : ClassifiedEvent} {entry : Entry} :
    event.enters? = some entry ↔
      event.stepRank = some entry.stepRank ∧
        entry =
          { user := event.user
            session := event.session
            stepName := event.stepName
            stepRank := entry.stepRank
            enteredAt := event.occurredAt
            dimensions := event.dimensions } := by
  rw [enters?, Option.map_eq_some_iff]
  constructor
  · rintro ⟨rank, hrank, rfl⟩
    exact ⟨hrank, rfl⟩
  · rintro ⟨hrank, hentry⟩
    exact ⟨entry.stepRank, hrank, hentry.symm⟩

end ClassifiedEvent

namespace Canonical

open ClassifiedEvent

variable {events : List ClassifiedEvent} {event : ClassifiedEvent}

theorem mem_kept_iff :
    event ∈ kept events ↔
      firstMaxOn? precedence (events.filter fun other => other.slot = event.slot) =
        some event := by
  rw [kept, mem_filterMap_groupBy]
  constructor
  · rintro ⟨other, -, h⟩
    have hslot := of_decide_eq_true (List.mem_filter.1 (mem_of_firstMaxOn? h)).2
    rw [hslot]
    exact h
  · intro h
    exact ⟨event, (List.mem_filter.1 (mem_of_firstMaxOn? h)).1, h⟩

theorem mem_of_mem_kept (h : event ∈ kept events) : event ∈ events :=
  (List.mem_filter.1 (mem_of_firstMaxOn? (mem_kept_iff.1 h))).1

theorem tops_of_mem_kept (h : event ∈ kept events) : event.Tops events :=
  fun _ hother hslot => isLE_of_firstMaxOn? (mem_kept_iff.1 h)
    (List.mem_filter.2 ⟨hother, decide_eq_true hslot⟩)

/-- No event of a slot is later than the one that is kept. -/
theorem occurredAt_le_of_mem_kept (h : event ∈ kept events) {other : ClassifiedEvent}
    (hother : other ∈ events) (hslot : other.slot = event.slot) :
    other.occurredAt ≤ event.occurredAt := by
  rcases isLE_compare_pair.1 (tops_of_mem_kept h other hother hslot) with hlt | ⟨heq, -⟩
  · exact (Instant.compare_eq_lt.1 hlt).le
  · exact heq.le

theorem exists_mem_kept (h : event ∈ events) : ∃ other ∈ kept events, other.slot = event.slot := by
  have hne : events.filter (fun other => other.slot = event.slot) ≠ [] :=
    List.ne_nil_of_mem (List.mem_filter.2 ⟨h, decide_eq_true rfl⟩)
  obtain ⟨other, hother⟩ := exists_firstMaxOn? (κ := Instant × String) _ hne
  have hslot := of_decide_eq_true (List.mem_filter.1 (mem_of_firstMaxOn? hother)).2
  exact ⟨other, mem_kept_iff.2 (by rw [hslot]; exact hother), hslot⟩

theorem ascending_kept (events : List ClassifiedEvent) : Ascending slot (kept events) :=
  ascending_filterMap_groupBy fun _ hgroup event h =>
    key_of_mem_runs hgroup event (mem_of_firstMaxOn? h)

theorem length_kept_le (events : List ClassifiedEvent) : (kept events).length ≤ events.length :=
  (List.subperm_of_subset (ascending_kept events).nodup fun _ => mem_of_mem_kept).length_le

/-- The events that stand for some slots are those of the events of these slots. -/
theorem kept_filter_slot (p : String × String × String × Option UInt32 → Bool)
    (events : List ClassifiedEvent) :
    kept (events.filter fun event => p event.slot) =
      (kept events).filter fun event => p event.slot := by
  refine filterMap_groupBy_filter slot fun group hgroup event h => ?_
  rw [key_of_mem_runs hgroup event (mem_of_firstMaxOn? h)]

/-- The events that stand for the slots of some sessions are those of the events of these
sessions. -/
theorem kept_filter (p : String × String → Bool) (events : List ClassifiedEvent) :
    kept (events.filter fun event => p (event.user, event.session)) =
      (kept events).filter fun event => p (event.user, event.session) :=
  kept_filter_slot (fun slot => p (slot.1, slot.2.1)) events

/-- How many events are dropped adds up over some sessions and all others. -/
theorem duplicates_filter_add (p : String × String → Bool) (events : List ClassifiedEvent) :
    (ofEvents events).duplicates =
      (ofEvents (events.filter fun event => p (event.user, event.session))).duplicates +
        (ofEvents (events.filter fun event => !p (event.user, event.session))).duplicates := by
  have hkept := List.length_eq_length_filter_add (l := kept events)
    fun event => p (event.user, event.session)
  rw [← kept_filter, ← kept_filter fun key => !p key] at hkept
  have hevents := List.length_eq_length_filter_add (l := events)
    fun event => p (event.user, event.session)
  have hleft := length_kept_le (events.filter fun event => p (event.user, event.session))
  have hright := length_kept_le (events.filter fun event => !p (event.user, event.session))
  simp only [ofEvents]
  omega

/-- The events that stand for the slots are the same if the same events occur and the same one is
chosen of each slot. -/
theorem kept_congr {others : List ClassifiedEvent} (hmem : ∀ event, event ∈ events ↔ event ∈ others)
    (hfirst : ∀ key, firstMaxOn? precedence (events.filter fun event => event.slot = key) =
      firstMaxOn? precedence (others.filter fun event => event.slot = key)) :
    kept events = kept others := by
  have hslots : distinct (events.map slot) = distinct (others.map slot) :=
    distinct_congr fun key => by simp only [List.mem_map, hmem]
  rw [kept, kept, groupBy_eq, groupBy_eq, hslots, List.filterMap_map, List.filterMap_map]
  exact List.filterMap_congr fun key _ => hfirst key

/-- Where one event only tops each slot, the events that stand for the slots do not depend on the
order of the events. -/
theorem kept_eq_of_perm {others : List ClassifiedEvent} (hperm : events.Perm others)
    (hties : ∀ a ∈ events, ∀ b ∈ events, a.slot = b.slot → a.Tops events → b.Tops events → a = b) :
    kept events = kept others := by
  refine kept_congr (fun _ => hperm.mem_iff) fun key =>
    firstMaxOn?_eq_of_perm (hperm.filter _) fun a ha b hb hgreatest_a hgreatest_b => ?_
  obtain ⟨ha, ha_slot⟩ := List.mem_filter.1 ha
  obtain ⟨hb, hb_slot⟩ := List.mem_filter.1 hb
  have ha_slot := of_decide_eq_true ha_slot
  have hb_slot := of_decide_eq_true hb_slot
  refine hties a ha b hb (ha_slot.trans hb_slot.symm) (fun c hc hslot => ?_) fun c hc hslot => ?_
  · exact hgreatest_a c (List.mem_filter.2 ⟨hc, decide_eq_true (hslot.trans ha_slot)⟩)
  · exact hgreatest_b c (List.mem_filter.2 ⟨hc, decide_eq_true (hslot.trans hb_slot)⟩)

/-- An event that comes again stands for no slot that it does not stand for already. -/
theorem kept_eq_of_redelivers {copies others : List ClassifiedEvent}
    (h : Redelivers events copies others) : kept others = kept events :=
  kept_congr (fun _ => h.mem_iff) fun _ => (h.filter _).firstMaxOn?_eq precedence

/-- An event that is kept belongs to a step and makes an entry, or it is set aside. -/
theorem length_kept (events : List ClassifiedEvent) :
    (kept events).length =
      (ofEvents events).entries.length + (ofEvents events).unmapped.length := by
  have hsplit := List.length_eq_countP_add_countP (l := kept events)
    fun event => event.stepRank.isSome
  simp only [Bool.not_eq_true, Option.isSome_eq_false_iff, Bool.decide_eq_true] at hsplit
  simp only [ofEvents, List.length_filterMap_eq_countP, ← List.countP_eq_length_filter, enters?,
    Option.isSome_map]
  exact hsplit

section Mapping

variable {f : ClassifiedEvent → ClassifiedEvent} (hslot : ∀ event, (f event).slot = event.slot)
  (hprecedence : ∀ a b,
    compare (f a).precedence (f b).precedence = compare a.precedence b.precedence)

include hslot hprecedence

/-- A change that leaves slots and the order of precedence alone keeps the same events. -/
theorem kept_map (events : List ClassifiedEvent) : kept (events.map f) = (kept events).map f := by
  unfold kept
  rw [groupBy_map, funext hslot, List.filterMap_map, List.map_filterMap]
  refine List.filterMap_congr fun group _ => ?_
  exact (firstMaxOn?_map ..).trans (congrArg _ (firstMaxOn?_congr hprecedence group.2))

theorem ofEvents_map {g : Entry → Entry}
    (henters : ∀ event, (f event).enters? = event.enters?.map g) (events : List ClassifiedEvent) :
    ofEvents (events.map f) =
      { entries := (ofEvents events).entries.map g
        unmapped := (ofEvents events).unmapped.map f
        duplicates := (ofEvents events).duplicates } := by
  have hrank : ∀ event, (f event).stepRank = event.stepRank := fun event =>
    congrArg (fun slot => slot.2.2.2) (hslot event)
  simp only [ofEvents, kept_map hslot hprecedence, List.filterMap_map, List.map_filterMap,
    List.filter_map, List.length_map, Function.comp_def, henters, hrank]

end Mapping

variable {entry : Entry}

theorem mem_entries_iff :
    entry ∈ (ofEvents events).entries ↔ ∃ event ∈ kept events, event.enters? = some entry :=
  List.mem_filterMap

/-- An entry comes from an event of its session and step, and no such event is later. -/
theorem exists_event_of_mem_entries (h : entry ∈ (ofEvents events).entries) :
    ∃ event ∈ events, event.enters? = some entry ∧
      ∀ other ∈ events, other.slot = event.slot → other.occurredAt ≤ entry.enteredAt := by
  obtain ⟨event, hevent, hentry⟩ := mem_entries_iff.1 h
  refine ⟨event, mem_of_mem_kept hevent, hentry, fun other hother hslot => ?_⟩
  rw [(enters?_eq_some_iff.1 hentry).2]
  exact occurredAt_le_of_mem_kept hevent hother hslot

theorem exists_mem_entries (h : event ∈ events) {rank : UInt32}
    (hrank : event.stepRank = some rank) :
    ∃ entry ∈ (ofEvents events).entries, entry.cell = ((event.user, event.session), rank) := by
  obtain ⟨other, hother, hslot⟩ := exists_mem_kept h
  simp only [slot, Prod.mk.injEq] at hslot
  obtain ⟨huser, hsession, -, hother_rank⟩ := hslot
  rw [hrank] at hother_rank
  refine ⟨_, mem_entries_iff.2 ⟨other, hother, by rw [enters?, hother_rank]; rfl⟩, ?_⟩
  rw [← huser, ← hsession]
  rfl

theorem entries_filter (p : String × String → Bool) (events : List ClassifiedEvent) :
    (ofEvents (events.filter fun event => p (event.user, event.session))).entries =
      (ofEvents events).entries.filter fun entry => p entry.sessionKey := by
  show (kept (events.filter _)).filterMap enters? = ((kept events).filterMap enters?).filter _
  rw [kept_filter, List.filterMap_filter, List.filter_filterMap]
  refine List.filterMap_congr fun event _ => ?_
  cases hrank : event.stepRank with
  | none => simp [enters?, hrank]
  | some rank =>
    by_cases hp : p (event.user, event.session) = true
    · simp [enters?, hrank, Entry.sessionKey, Option.filter, hp]
    · simp [enters?, hrank, Entry.sessionKey, Option.filter, hp]

/-- Without the events of no step the entries are the same: the rank is a part of the slot, so that
such an event stands for no step, whatever its type. -/
theorem entries_filter_isSome (events : List ClassifiedEvent) :
    (ofEvents (events.filter fun event => event.stepRank.isSome)).entries =
      (ofEvents events).entries := by
  show (kept (events.filter _)).filterMap enters? = (kept events).filterMap enters?
  have hkept : kept (events.filter fun event => event.stepRank.isSome) =
      (kept events).filter fun event => event.stepRank.isSome :=
    kept_filter_slot (fun slot => slot.2.2.2.isSome) events
  rw [hkept, List.filterMap_filter]
  refine List.filterMap_congr fun event _ => ?_
  cases hrank : event.stepRank with
  | none => simp [enters?, hrank]
  | some rank => simp

theorem plain_of_mem_entries (h : entry ∈ (ofEvents events).entries) :
    entry.bare = entry ∧ entry.backfilled = false := by
  obtain ⟨event, -, hentry, -⟩ := exists_event_of_mem_entries h
  rw [(enters?_eq_some_iff.1 hentry).2]
  exact ⟨rfl, rfl⟩

/-- Where a rank has one name only, a session has no two entries of a rank. -/
theorem nodup_cell_entries
    (hname : ∀ a ∈ events, ∀ b ∈ events, a.stepRank.isSome → a.stepRank = b.stepRank →
      a.stepName = b.stepName) :
    ((ofEvents events).entries.map Entry.cell).Nodup := by
  refine List.pairwise_map.2 (List.pairwise_filterMap.2 ?_)
  refine (ascending_kept events).imp_of_mem ?_
  intro a b ha hb hlt entry hentry entry' hentry' hcell
  obtain ⟨hrank, heq⟩ := enters?_eq_some_iff.1 hentry
  obtain ⟨hrank', heq'⟩ := enters?_eq_some_iff.1 hentry'
  have hranks : entry.stepRank = entry'.stepRank := congrArg Prod.snd hcell
  have hkeys : entry.sessionKey = entry'.sessionKey := congrArg Prod.fst hcell
  rw [heq, heq'] at hkeys
  obtain ⟨huser, hsession⟩ := Prod.mk.injEq .. ▸ hkeys
  -- two kept events of one session and rank would be of one slot
  have hstep : a.stepRank = b.stepRank := by rw [hrank, hrank', hranks]
  have hslot : a.slot = b.slot := by
    have hnames := hname a (mem_of_mem_kept ha) b (mem_of_mem_kept hb) (by rw [hrank]; rfl) hstep
    simp only [slot, Prod.mk.injEq]
    exact ⟨huser, hsession, hnames, hstep⟩
  exact ne_of_compare_lt hlt hslot

end Canonical

end Funnel
