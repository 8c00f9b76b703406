import Funnel.Proofs.Entry.Attributes
import Funnel.Proofs.Entry.Canonical

/-!
# Entries of events at other times

The stages that make entries of events compare times and subtract them, and do nothing else with
them. So moving all events by an offset moves the entries by it.
-/

namespace Funnel

open Time

namespace Time.Instant

/-- An instant moved by some microseconds. -/
def shift (offset : Int) (t : Instant) : Instant :=
  ⟨t.micros + offset⟩

@[simp]
theorem compare_shift (offset : Int) (a b : Instant) :
    compare (a.shift offset) (b.shift offset) = compare a b := by
  show compareOfLessAndEq (a.micros + offset) (b.micros + offset) =
    compareOfLessAndEq a.micros b.micros
  simp only [compareOfLessAndEq, Int.add_lt_add_iff_right, Int.add_left_inj]

/-- The span between two instants that are moved together stays, with the part of a second that is
dropped from it. -/
@[simp]
theorem secondsSince_shift (offset : Int) (later earlier : Instant) :
    (later.shift offset).secondsSince (earlier.shift offset) = later.secondsSince earlier := by
  unfold secondsSince shift
  rw [Int.add_sub_add_right]

end Time.Instant

/-- An event moved in time. -/
def Event.shift (offset : Int) (event : Event) : Event :=
  { event with occurredAt := event.occurredAt.shift offset }

/-- A classified event moved in time. -/
def ClassifiedEvent.shift (offset : Int) (event : ClassifiedEvent) : ClassifiedEvent :=
  { event with occurredAt := event.occurredAt.shift offset }

/-- An entry moved in time, together with the time at which its session went on from it. -/
def Entry.shift (offset : Int) (entry : Entry) : Entry :=
  { entry with
    enteredAt := entry.enteredAt.shift offset
    nextEnteredAt := entry.nextEnteredAt.map (Instant.shift offset) }

namespace ClassifiedEvent

variable (offset : Int)

theorem slot_shift (event : ClassifiedEvent) : (event.shift offset).slot = event.slot := rfl

theorem compare_precedence_shift (a b : ClassifiedEvent) :
    compare (a.shift offset).precedence (b.shift offset).precedence =
      compare a.precedence b.precedence :=
  congrArg (Ordering.then · _) (Instant.compare_shift offset a.occurredAt b.occurredAt)

theorem enters?_shift (event : ClassifiedEvent) :
    (event.shift offset).enters? = event.enters?.map (Entry.shift offset) := by
  unfold enters?
  rw [Option.map_map]
  rfl

end ClassifiedEvent

namespace Canonical

variable (offset : Int) (events : List ClassifiedEvent)

/-- Of each slot the same event is kept, moved in time. -/
theorem ofEvents_map_shift :
    ofEvents (events.map (ClassifiedEvent.shift offset)) =
      { entries := (ofEvents events).entries.map (Entry.shift offset)
        unmapped := (ofEvents events).unmapped.map (ClassifiedEvent.shift offset)
        duplicates := (ofEvents events).duplicates } :=
  ofEvents_map (ClassifiedEvent.slot_shift offset)
    (ClassifiedEvent.compare_precedence_shift offset)
    (ClassifiedEvent.enters?_shift offset) events

end Canonical

namespace Entry

variable (offset : Int)

theorem compare_position_shift (a b : Entry) :
    compare (a.shift offset).position (b.shift offset).position =
      compare a.position b.position :=
  congrArg (Ordering.then · _) (Instant.compare_shift offset a.enteredAt b.enteredAt)

theorem sortOn_position_map_shift (session : List Entry) :
    sortOn position (session.map (shift offset)) =
      (sortOn position session).map (shift offset) :=
  sortOn_map (compare_position_shift offset) session

theorem ofSession_map_shift (key : String × String) (entries : List Entry) :
    ofSession key (entries.map (shift offset)) = (ofSession key entries).map (shift offset) :=
  List.filter_map ..

theorem bySession_map_shift (entries : List Entry) :
    bySession (entries.map (shift offset)) =
      (bySession entries).map fun group => (group.1, group.2.map (shift offset)) :=
  groupBy_map ..

theorem anchor?_map_shift (session : List Entry) (rank : UInt32) :
    anchor? (session.map (shift offset)) rank = (anchor? session rank).map (shift offset) := by
  have hcompare : ∀ a b : Entry,
      compare ((a.shift offset).enteredAt, a.stepRank) ((b.shift offset).enteredAt, b.stepRank) =
        compare (a.enteredAt, a.stepRank) (b.enteredAt, b.stepRank) := fun a b =>
    congrArg (Ordering.then · _) (Instant.compare_shift offset a.enteredAt b.enteredAt)
  unfold anchor?
  rw [List.filter_map]
  refine (firstMinOn?_map ..).trans (congrArg _ ?_)
  exact firstMinOn?_congr hcompare _

theorem skipped_map_shift (steps : List Step) (session : List Entry) :
    skipped steps (session.map (shift offset)) =
      (skipped steps session).map (shift offset) := by
  unfold skipped
  rw [List.map_filterMap]
  refine List.filterMap_congr fun named _ => ?_
  dsimp only
  rw [List.any_map, anchor?_map_shift, apply_ite (Option.map (shift offset)), Option.map_map,
    Option.map_map]
  rfl

/-- The entries of skipped steps stand in for the same steps, moved in time. -/
theorem backfill_map_shift (steps : List Step) (entries : List Entry) :
    backfill steps (entries.map (shift offset)) =
      (backfill steps entries).map (shift offset) := by
  unfold backfill missing
  rw [List.map_append, bySession_map_shift, List.flatMap_map, List.map_flatMap]
  simp only [skipped_map_shift]

theorem successor?_map_shift (mode : ConversionMode) (entry : Entry) (later : List Entry) :
    successor? mode (entry.shift offset) (later.map (shift offset)) =
      (successor? mode entry later).map (shift offset) := by
  cases mode with
  | anyLaterEvent => exact List.head?_map
  | higherRank => exact List.find?_map ..

theorem withSignals_shift (entry : Entry) (previous next : Option Entry) :
    (entry.shift offset).withSignals (previous.map (shift offset)) (next.map (shift offset)) =
      (entry.withSignals previous next).shift offset := by
  cases previous <;> cases next <;> simp [withSignals, shift]

theorem signal_map_shift (mode : ConversionMode) (previous : Option Entry)
    (session : List Entry) :
    signal mode (previous.map (shift offset)) (session.map (shift offset)) =
      (signal mode previous session).map (shift offset) := by
  induction session generalizing previous with
  | nil => rfl
  | cons entry later ih =>
    rw [List.map_cons, signal, signal, List.map_cons, successor?_map_shift, withSignals_shift]
    exact congrArg _ (ih (some entry))

/-- The entries of each session follow each other in the same order, moved in time, and tell the
same spans. -/
theorem sequence_map_shift (mode : ConversionMode) (entries : List Entry) :
    sequence mode (entries.map (shift offset)) =
      (sequence mode entries).map (shift offset) := by
  unfold sequence
  rw [bySession_map_shift, List.flatMap_map, List.map_flatMap]
  refine congrArg (List.flatMap · (bySession entries)) (funext fun group => ?_)
  dsimp only
  rw [sequenceSession_eq, sequenceSession_eq, sortOn_position_map_shift]
  exact signal_map_shift offset mode none _

variable (declared : List String) (selection : Selection) (records : List AttributeRecord)

theorem observedDimensions_map_shift (session : List Entry) :
    observedDimensions declared (session.map (shift offset)) =
      observedDimensions declared session := by
  unfold observedDimensions
  rw [sortOn_position_map_shift]
  simp only [List.findSome?_map]
  rfl

theorem dimensionsOf_map_shift (entries : List Entry) (key : String × String) :
    dimensionsOf declared selection records (entries.map (shift offset)) key =
      dimensionsOf declared selection records entries key := by
  unfold dimensionsOf sessionDimensions
  rw [ofSession_map_shift, observedDimensions_map_shift]

/-- Sessions get the dimensions that they would get without being moved: neither the values that
their entries carry nor the records depend on when they took place. -/
theorem attach_map_shift (entries : List Entry) :
    attach declared selection records (entries.map (shift offset)) =
      (attach declared selection records entries).map (shift offset) := by
  rw [attach_eq, attach_eq, List.map_map, List.map_map]
  refine List.map_congr_left fun entry _ => ?_
  show (entry.shift offset).withDimensions _ = (entry.withDimensions _).shift offset
  rw [dimensionsOf_map_shift]
  rfl

end Entry

end Funnel
