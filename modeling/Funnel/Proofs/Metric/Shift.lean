import Funnel.Proofs.Entry.Shift
import Funnel.Proofs.Metric.Counts

namespace Funnel

open Time

namespace Journey

variable (offset : Int)

/-- A journey moved in time. -/
def shift (journey : Journey) : Journey :=
  { journey with
    firstEnteredAt := journey.firstEnteredAt.shift offset
    lastEnteredAt := journey.lastEnteredAt.shift offset }

theorem ofEntries?_map_shift (user : String) (session : Option String) (dimensions : Dimensions)
    (entries : List Entry) :
    ofEntries? user session dimensions (entries.map (Entry.shift offset)) =
      (ofEntries? user session dimensions entries).map (shift offset) := by
  -- the order of times stays, so the first and the last entry are found at the same places
  have hcompare : ∀ a b : Entry, compare (a.shift offset).enteredAt (b.shift offset).enteredAt =
      compare a.enteredAt b.enteredAt := fun a b =>
    Instant.compare_shift offset a.enteredAt b.enteredAt
  have hfirst : firstMinOn? Entry.enteredAt (entries.map (Entry.shift offset)) =
      (firstMinOn? Entry.enteredAt entries).map (Entry.shift offset) :=
    (firstMinOn?_map ..).trans (congrArg _ (firstMinOn?_congr hcompare entries))
  have hlast : firstMaxOn? Entry.enteredAt (entries.map (Entry.shift offset)) =
      (firstMaxOn? Entry.enteredAt entries).map (Entry.shift offset) :=
    (firstMaxOn?_map ..).trans (congrArg _ (firstMaxOn?_congr hcompare entries))
  have hranks : (entries.map (Entry.shift offset)).map Entry.stepRank =
      entries.map Entry.stepRank := List.map_map ..
  have hsessions : (entries.map (Entry.shift offset)).map Entry.session =
      entries.map Entry.session := List.map_map ..
  unfold ofEntries?
  rw [hfirst, hlast, hranks, hsessions]
  dsimp only
  cases firstMinOn? Entry.enteredAt entries with
  | none => rfl
  | some first =>
    cases firstMaxOn? Entry.enteredAt entries with
    | none => rfl
    | some last =>
      cases (distinct (entries.map Entry.stepRank)).head? with
      | none => rfl
      | some lowest =>
        cases (distinct (entries.map Entry.stepRank)).getLast? with
        | none => rfl
        | some highest => simp [shift, Entry.shift]

theorem ofSessions_map_shift (entries : List Entry) :
    ofSessions (entries.map (Entry.shift offset)) = (ofSessions entries).map (shift offset) := by
  unfold ofSessions
  rw [groupBy_map, List.filterMap_map, List.map_filterMap]
  exact List.filterMap_congr fun group _ => ofEntries?_map_shift ..

theorem ofUsers_map_shift (entries : List Entry) :
    ofUsers (entries.map (Entry.shift offset)) = (ofUsers entries).map (shift offset) := by
  unfold ofUsers
  rw [groupBy_map, List.filterMap_map, List.map_filterMap]
  exact List.filterMap_congr fun group _ => ofEntries?_map_shift ..

end Journey

namespace Slice

variable (offset : Int)

/-- The part of a combination, moved in time. -/
def shift (slice : Slice) : Slice :=
  { slice with
    entries := slice.entries.map (Entry.shift offset)
    sessions := slice.sessions.map (Journey.shift offset)
    users := slice.users.map (Journey.shift offset) }

/-- The sessions of a user come in the same order, and so they keep their numbers. -/
theorem ordinals_map_shift (sessions : List Journey) :
    ordinals (sessions.map (Journey.shift offset)) = ordinals sessions := by
  have hcompare : ∀ a b : Journey,
      compare ((a.shift offset).firstEnteredAt, a.session.getD "")
          ((b.shift offset).firstEnteredAt, b.session.getD "") =
        compare (a.firstEnteredAt, a.session.getD "") (b.firstEnteredAt, b.session.getD "") :=
    fun a b => congrArg (Ordering.then · _)
      (Instant.compare_shift offset a.firstEnteredAt b.firstEnteredAt)
  have hfilter : (sessions.map (Journey.shift offset)).filter (·.session.isSome) =
      (sessions.filter (·.session.isSome)).map (Journey.shift offset) := List.filter_map ..
  unfold ordinals
  rw [hfilter, groupBy_map, List.flatMap_map]
  refine congrArg (List.flatMap · _) (funext fun group => ?_)
  have hsorted : sortOn (fun j : Journey => (j.firstEnteredAt, j.session.getD ""))
      (group.2.map (Journey.shift offset)) =
        (sortOn (fun j => (j.firstEnteredAt, j.session.getD "")) group.2).map
          (Journey.shift offset) := sortOn_map hcompare _
  dsimp only
  rw [hsorted, List.map_map]
  rfl

theorem leastOrdinal?_map_shift (table : List ((String × String) × Nat)) (entries : List Entry) :
    leastOrdinal? table (entries.map (Entry.shift offset)) = leastOrdinal? table entries := by
  unfold leastOrdinal?
  rw [List.map_map]
  rfl

theorem sessionStart?_shift (slice : Slice) (entry : Entry) :
    (slice.shift offset).sessionStart? (entry.shift offset) =
      (slice.sessionStart? entry).map (Instant.shift offset) := by
  unfold sessionStart?
  rw [List.findRev?_eq_find?_reverse, List.findRev?_eq_find?_reverse, Option.map_map]
  show Option.map _ (List.find? _ (slice.sessions.map (Journey.shift offset)).reverse) = _
  rw [← List.map_reverse, List.find?_map, Option.map_map]
  rfl

theorem sessionCount?_shift (slice : Slice) (user : String) :
    (slice.shift offset).sessionCount? user = slice.sessionCount? user := by
  unfold sessionCount?
  rw [List.findRev?_eq_find?_reverse, List.findRev?_eq_find?_reverse]
  show Option.map _ (List.find? _ (slice.users.map (Journey.shift offset)).reverse) = _
  rw [← List.map_reverse, List.find?_map, Option.map_map]
  rfl

/-- The row of a step does not depend on when its entries took place. -/
theorem stepMetric_shift (slice : Slice) (table : List ((String × String) × Nat)) (step : Step) :
    (slice.shift offset).stepMetric table step = slice.stepMetric table step := by
  let reached := slice.entries.filter fun entry => entry.stepRank == step.rank
  have hreached : ((slice.shift offset).entries.filter fun entry => entry.stepRank == step.rank) =
      reached.map (Entry.shift offset) := List.filter_map ..
  have hconverted : (reached.map (Entry.shift offset)).filter Entry.converted =
      (reached.filter Entry.converted).map (Entry.shift offset) := List.filter_map ..
  have hstart : ∀ entry : Entry,
      (((slice.shift offset).sessionStart? (entry.shift offset)).map fun start =>
          Float.ofInt ((entry.shift offset).enteredAt.secondsSince start)) =
        (slice.sessionStart? entry).map fun start =>
          Float.ofInt (entry.enteredAt.secondsSince start) := by
    intro entry
    rw [sessionStart?_shift, Option.map_map]
    refine congrArg (Option.map · _) (funext fun start => ?_)
    exact congrArg Float.ofInt (Instant.secondsSince_shift offset entry.enteredAt start)
  unfold stepMetric
  rw [hreached]
  dsimp only
  rw [hconverted, groupBy_map, groupBy_map, List.filterMap_map, List.filterMap_map,
    List.filterMap_map, List.filterMap_map, List.length_map, List.length_map]
  simp only [Function.comp_def, hstart, leastOrdinal?_map_shift, List.filterMap_map]
  rfl

/-- The row of the whole funnel does not depend on when its journeys took place. -/
theorem endToEndMetric_shift (slice : Slice) (lastRank : UInt32) :
    (slice.shift offset).endToEndMetric lastRank = slice.endToEndMetric lastRank := by
  let starting := slice.sessions.filter fun j => j.firstStep == 1
  have hstarting : ((slice.shift offset).sessions.filter fun j => j.firstStep == 1) =
      starting.map (Journey.shift offset) := List.filter_map ..
  have hcompleting : (starting.map (Journey.shift offset)).filter
        (fun j => j.lastStep == lastRank) =
      (starting.filter fun j => j.lastStep == lastRank).map (Journey.shift offset) :=
    List.filter_map ..
  unfold endToEndMetric meanSessions
  rw [hstarting]
  dsimp only
  rw [hcompleting]
  simp only [List.map_map, Function.comp_def, sessionCount?_shift]
  rfl

theorem metrics_shift (slice : Slice) (steps : List Step) :
    (slice.shift offset).metrics steps = slice.metrics steps := by
  have htable : ordinals (slice.shift offset).sessions = ordinals slice.sessions :=
    ordinals_map_shift offset slice.sessions
  have hstep : (slice.shift offset).stepMetric (ordinals slice.sessions) =
      slice.stepMetric (ordinals slice.sessions) := funext (stepMetric_shift offset slice _)
  simp only [metrics, htable, hstep, endToEndMetric_shift]

end Slice

namespace Metric

variable (offset : Int) (entries : List Entry)

theorem sliceOf_map_shift (dimensions : Dimensions) :
    sliceOf (entries.map (Entry.shift offset)) dimensions =
      (sliceOf entries dimensions).shift offset := by
  unfold sliceOf Slice.ofDimensions
  rw [Journey.ofSessions_map_shift, Journey.ofUsers_map_shift, List.filter_map, List.filter_map,
    List.filter_map]
  rfl

theorem combinationsOf_map_shift (declared : List String) :
    combinationsOf declared (entries.map (Entry.shift offset)) =
      combinationsOf declared entries := by
  unfold combinationsOf combinations
  rw [Journey.ofSessions_map_shift, Journey.ofUsers_map_shift, List.map_map, List.map_map,
    List.map_map]
  rfl

/-- Entries that are moved in time together have the metrics that they had before. -/
theorem ofEntries_map_shift (steps : List Step) (declared : List String) :
    ofEntries steps declared (entries.map (Entry.shift offset)) =
      ofEntries steps declared entries := by
  show (combinationsOf declared (entries.map (Entry.shift offset))).flatMap (fun dimensions =>
      (sliceOf (entries.map (Entry.shift offset)) dimensions).metrics steps) = _
  simp only [combinationsOf_map_shift, sliceOf_map_shift, Slice.metrics_shift]
  rfl

end Metric

end Funnel
