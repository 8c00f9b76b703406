import Funnel.Metric.Aggregate
import Funnel.Proofs.Grouping
import Funnel.Proofs.NameMap
import Mathlib.Data.List.Permutation

/-!
# The table of metrics

Whatever entries and journeys metrics are made of, their rows form a table: the dimension maps that
occur in ascending order, and for each of them the steps in order of rank and then the whole funnel.
-/

namespace Funnel

open Std

namespace Metric

/-- The row of a rank in a combination. -/
structure IsStage (metric : Metric) (dimensions : Dimensions) (rank : UInt32) : Prop where
  level : metric.level = .stage
  stepRank : metric.stepRank = some rank
  dimensions : metric.dimensions = dimensions

/-- The row of the whole funnel in a combination. -/
structure IsEndToEnd (metric : Metric) (dimensions : Dimensions) : Prop where
  level : metric.level = .endToEnd
  dimensions : metric.dimensions = dimensions

def label (metric : Metric) : Level × Option UInt32 × Option String × Dimensions :=
  (metric.level, metric.stepRank, metric.stepName, metric.dimensions)

/-- What a row is about says where it stands. -/
def labelPosition (label : Level × Option UInt32 × Option String × Dimensions) :
    Dimensions × Nat × Option UInt32 :=
  (label.2.2.2, label.1.place, label.2.1)

theorem label_stepMetric (slice : Slice) (table : List ((String × String) × Nat)) (step : Step) :
    (slice.stepMetric table step).label =
      (.stage, some step.rank, some step.name, slice.dimensions) := rfl

theorem label_endToEndMetric (slice : Slice) (lastRank : UInt32) :
    (slice.endToEndMetric lastRank).label = (.endToEnd, none, none, slice.dimensions) := rfl

/-- The labels of the rows of a combination. -/
def labelsOf (steps : List Step) (dimensions : Dimensions) :
    List (Level × Option UInt32 × Option String × Dimensions) :=
  (sortOn Step.rank steps).map (fun step =>
    (.stage, some step.rank, some step.name, dimensions)) ++ [(.endToEnd, none, none, dimensions)]

variable {steps : List Step} {declared : List String} {entries : List Entry}
  {sessions users : List Journey} {metric : Metric} {dimensions : Dimensions} {rank : UInt32}

/-- A dimension map belongs to some of the given entries and journeys. -/
def Occurs (entries : List Entry) (sessions users : List Journey) (dimensions : Dimensions) :
    Prop :=
  (∃ entry ∈ entries, entry.dimensions = dimensions) ∨
    (∃ journey ∈ sessions, journey.dimensions = dimensions) ∨
    ∃ journey ∈ users, journey.dimensions = dimensions

/-- Rows are about the maps that occur, and about the unset one if there is nothing that has a
map. -/
theorem mem_combinations :
    dimensions ∈ combinations declared entries sessions users ↔
      Occurs entries sessions users dimensions ∨
        (entries = [] ∧ sessions = [] ∧ users = []) ∧ dimensions = Dimensions.unset declared := by
  let occurring := entries.map Entry.dimensions ++ sessions.map Journey.dimensions ++
    users.map Journey.dimensions
  have hoccurring : dimensions ∈ distinct occurring ↔
      Occurs entries sessions users dimensions := by
    simp only [occurring, mem_distinct, List.mem_append, List.mem_map, or_assoc, Occurs]
  have hnil : distinct occurring = [] ↔ entries = [] ∧ sessions = [] ∧ users = [] := by
    simp only [occurring, distinct, List.map_eq_nil_iff, groupBy_eq_nil_iff,
      List.append_eq_nil_iff, and_assoc]
  unfold combinations
  by_cases hempty : distinct occurring = []
  · have hnone : ¬ Occurs entries sessions users dimensions := by
      rw [← hoccurring, hempty]
      exact List.not_mem_nil
    rw [if_pos (List.isEmpty_iff.2 hempty), List.mem_singleton]
    exact ⟨fun h => .inr ⟨hnil.1 hempty, h⟩, fun h => (h.resolve_left hnone).2⟩
  · rw [if_neg (by rwa [List.isEmpty_iff]), hoccurring]
    simp only [mt hnil.2 hempty, false_and, or_false]

theorem ascending_combinations (declared : List String) (entries : List Entry)
    (sessions users : List Journey) :
    Ascending id (combinations declared entries sessions users) := by
  unfold combinations
  dsimp only
  split
  · exact List.pairwise_singleton _ _
  · exact ascending_distinct _

theorem mem_aggregate :
    metric ∈ aggregate steps declared entries sessions users ↔
      ∃ dimensions ∈ combinations declared entries sessions users,
        (∃ step ∈ steps, metric =
          (Slice.ofDimensions entries sessions users dimensions).stepMetric
            (Slice.ordinals (Slice.ofDimensions entries sessions users dimensions).sessions)
            step) ∨
        metric = (Slice.ofDimensions entries sessions users dimensions).endToEndMetric
          (Step.maxRank steps) := by
  simp only [aggregate, Slice.metrics, List.mem_flatMap, List.mem_append, List.mem_map,
    mem_sortOn, List.mem_singleton, eq_comm (a := metric)]

theorem dimensions_of_mem_metrics {slice : Slice} {metric : Metric}
    (h : metric ∈ slice.metrics steps) : metric.dimensions = slice.dimensions := by
  rcases List.mem_append.1 h with hstage | htotal
  · obtain ⟨step, -, rfl⟩ := List.mem_map.1 hstage
    rfl
  · rw [List.mem_singleton.1 htotal]
    rfl

theorem mem_map_dimensions_aggregate :
    dimensions ∈ (aggregate steps declared entries sessions users).map Metric.dimensions ↔
      dimensions ∈ combinations declared entries sessions users := by
  constructor
  · intro h
    obtain ⟨metric, hmetric, rfl⟩ := List.mem_map.1 h
    obtain ⟨dimensions, hmem, hrows⟩ := List.mem_flatMap.1 hmetric
    rw [dimensions_of_mem_metrics hrows]
    exact hmem
  · intro h
    exact List.mem_map.2 ⟨_, mem_aggregate.2 ⟨dimensions, h, .inr rfl⟩, rfl⟩

theorem aggregate_ne_nil : aggregate steps declared entries sessions users ≠ [] := by
  have hsome : ∃ dimensions, dimensions ∈ combinations declared entries sessions users := by
    unfold combinations
    dsimp only
    split
    · exact ⟨_, List.mem_singleton_self _⟩
    · rename_i hne
      exact List.exists_mem_of_ne_nil _ (by simpa using hne)
  obtain ⟨dimensions, hmem⟩ := hsome
  exact List.ne_nil_of_mem (mem_aggregate.2 ⟨dimensions, hmem, .inr rfl⟩)

theorem existsUnique_isStage (hranks : (steps.map Step.rank).Nodup)
    (hmem : dimensions ∈ combinations declared entries sessions users)
    (hstep : ∃ step ∈ steps, step.rank = rank) :
    ∃! metric, metric ∈ aggregate steps declared entries sessions users ∧
      metric.IsStage dimensions rank := by
  obtain ⟨step, hstep, rfl⟩ := hstep
  refine ⟨_, ⟨mem_aggregate.2 ⟨dimensions, hmem, .inl ⟨step, hstep, rfl⟩⟩, rfl, rfl, rfl⟩, ?_⟩
  rintro metric ⟨hmetric, hstage⟩
  obtain ⟨d, -, ⟨other, hother, rfl⟩ | rfl⟩ := mem_aggregate.1 hmetric
  · obtain rfl : d = dimensions := hstage.dimensions
    have heq : other.rank = step.rank := Option.some.inj hstage.stepRank
    rw [List.inj_on_of_nodup_map hranks hother hstep heq]
  · cases hstage.level

theorem existsUnique_isEndToEnd
    (hmem : dimensions ∈ combinations declared entries sessions users) :
    ∃! metric, metric ∈ aggregate steps declared entries sessions users ∧
      metric.IsEndToEnd dimensions := by
  refine ⟨_, ⟨mem_aggregate.2 ⟨dimensions, hmem, .inr rfl⟩, rfl, rfl⟩, ?_⟩
  rintro metric ⟨hmetric, htotal⟩
  obtain ⟨d, -, ⟨step, -, rfl⟩ | rfl⟩ := mem_aggregate.1 hmetric
  · cases htotal.level
  · obtain rfl : d = dimensions := htotal.dimensions
    rfl

theorem map_label_aggregate (steps : List Step) (declared : List String) (entries : List Entry)
    (sessions users : List Journey) :
    (aggregate steps declared entries sessions users).map label =
      (combinations declared entries sessions users).flatMap (labelsOf steps) := by
  have hslice : ∀ dimensions,
      ((Slice.ofDimensions entries sessions users dimensions).metrics steps).map label =
        labelsOf steps dimensions := by
    intro dimensions
    rw [Slice.metrics, List.map_append, List.map_map]
    rfl
  rw [aggregate, List.map_flatMap]
  simp only [hslice]

/-- A combination has a row for each step and one more. -/
theorem length_aggregate (steps : List Step) (declared : List String) (entries : List Entry)
    (sessions users : List Journey) :
    (aggregate steps declared entries sessions users).length =
      (combinations declared entries sessions users).length * (steps.length + 1) := by
  have hlength : ∀ maps : List Dimensions,
      (maps.flatMap (labelsOf steps)).length = maps.length * (steps.length + 1) := by
    intro maps
    induction maps with
    | nil => simp
    | cons dimensions maps ih =>
      have hlabels : (labelsOf steps dimensions).length = steps.length + 1 := by
        simp [labelsOf, (sortOn_perm Step.rank steps).length_eq]
      rw [List.flatMap_cons, List.length_append, ih, hlabels, List.length_cons, Nat.succ_mul,
        Nat.add_comm]
  rw [← List.length_map label, map_label_aggregate, hlength]

/-- The rows of a combination stand in order of rank, the one about the whole funnel behind them. -/
theorem ascending_labelsOf (hranks : (steps.map Step.rank).Nodup) (dimensions : Dimensions) :
    Ascending labelPosition (labelsOf steps dimensions) := by
  refine List.pairwise_append.2 ⟨?_, List.pairwise_singleton _ _, ?_⟩
  · refine List.pairwise_map.2 ((ascending_sortOn hranks).imp fun {a b} hlt => ?_)
    refine compare_pair_eq_lt.2 (.inr ⟨rfl, compare_pair_eq_lt.2 (.inr ⟨rfl, ?_⟩)⟩)
    exact hlt
  · intro stage hstage total htotal
    obtain ⟨step, -, rfl⟩ := List.mem_map.1 hstage
    obtain rfl := List.mem_singleton.1 htotal
    exact compare_pair_eq_lt.2 (.inr ⟨rfl, compare_pair_eq_lt.2 (.inl rfl)⟩)

/-- The rows are listed in order of combination, level and rank. -/
theorem ascending_aggregate (hranks : (steps.map Step.rank).Nodup) (declared : List String)
    (entries : List Entry) (sessions users : List Journey) :
    Ascending position (aggregate steps declared entries sessions users) := by
  have hdimensions : ∀ dimensions, ∀ label ∈ labelsOf steps dimensions,
      label.2.2.2 = dimensions := by
    intro dimensions label hlabel
    rcases List.mem_append.1 hlabel with hstage | htotal
    · obtain ⟨step, -, rfl⟩ := List.mem_map.1 hstage
      rfl
    · rw [List.mem_singleton.1 htotal]
  have hlabels : Ascending labelPosition
      ((aggregate steps declared entries sessions users).map label) := by
    rw [map_label_aggregate]
    refine List.pairwise_flatMap.2 ⟨fun dimensions _ => ascending_labelsOf hranks dimensions, ?_⟩
    refine (ascending_combinations declared entries sessions users).imp fun {d d'} hlt => ?_
    intro label hlabel label' hlabel'
    refine compare_pair_eq_lt.2 (.inl ?_)
    show compare label.2.2.2 label'.2.2.2 = .lt
    rw [hdimensions d label hlabel, hdimensions d' label' hlabel']
    exact hlt
  exact (Ascending.map (f := label)).1 hlabels

/-- No two rows are about the same. -/
theorem nodup_label_aggregate (hranks : (steps.map Step.rank).Nodup) (declared : List String)
    (entries : List Entry) (sessions users : List Journey) :
    ((aggregate steps declared entries sessions users).map label).Nodup := by
  refine List.Nodup.of_map labelPosition ?_
  rw [List.map_map]
  exact (ascending_aggregate hranks declared entries sessions users).nodup_map

/-- A row stands in front of another one: by dimension map, then steps in front of the whole funnel,
then by rank. -/
def Precedes (a b : Metric) : Prop :=
  compare a.dimensions b.dimensions = .lt ∨
    a.dimensions = b.dimensions ∧
      (a.level = .stage ∧ b.level = .endToEnd ∨
        a.level = b.level ∧ compare a.stepRank b.stepRank = .lt)

/-- The order of rows is that of their positions. -/
theorem precedes_iff {a b : Metric} :
    Precedes a b ↔ compare a.position b.position = .lt := by
  have hlevel : compare a.level.place b.level.place = .lt ↔
      a.level = .stage ∧ b.level = .endToEnd := by
    cases a.level <;> cases b.level <;> decide
  have hplace : a.level.place = b.level.place ↔ a.level = b.level := by
    cases a.level <;> cases b.level <;> decide
  simp only [Precedes, position, compare_pair_eq_lt, hlevel, hplace]

/-- Some metrics are the rows of some steps in some combinations: one for each step and one for the
whole funnel, and no others, in order. -/
structure IsTable (steps : List Step) (maps : Set Dimensions) (metrics : List Metric) : Prop where
  /-- The combinations of the rows are the given ones. -/
  combinations : ∀ dimensions, dimensions ∈ metrics.map Metric.dimensions ↔ dimensions ∈ maps
  /-- A combination has one row for each step, and it has the name of the step. -/
  stage : ∀ dimensions ∈ maps, ∀ step ∈ steps, ∃ metric ∈ metrics,
    metric.label = (.stage, some step.rank, some step.name, dimensions) ∧
      ∀ other ∈ metrics, other.IsStage dimensions step.rank → other = metric
  /-- A row of a step has the rank and the name of a step. -/
  named : ∀ metric ∈ metrics, metric.level = .stage →
    ∃ step ∈ steps, metric.stepRank = some step.rank ∧ metric.stepName = some step.name
  /-- A combination has one row for the whole funnel. -/
  endToEnd : ∀ dimensions ∈ maps, ∃! metric, metric ∈ metrics ∧ metric.IsEndToEnd dimensions
  /-- A row of the whole funnel has neither rank nor name. -/
  unnamed : ∀ metric ∈ metrics, metric.level = .endToEnd →
    metric.stepRank = none ∧ metric.stepName = none
  /-- Each row stands in front of all that are behind it. -/
  ordered : metrics.Pairwise Precedes
  /-- In the order in which published rows are read back they stand as they are. -/
  sorted : sortOn position metrics = metrics

/-- Metrics form a table of the dimension maps that occur anywhere among some entries and journeys,
whether or not the journeys sum up the entries; where nothing has a map, of the unset one. -/
theorem aggregate_isTable (steps : List Step) (declared : List String) (entries : List Entry)
    (sessions users : List Journey) (hranks : (steps.map Step.rank).Nodup) :
    IsTable steps
      { dimensions | Occurs entries sessions users dimensions ∨
        (entries = [] ∧ sessions = [] ∧ users = []) ∧ Dimensions.LeavesUnset declared dimensions }
      (aggregate steps declared entries sessions users) := by
  -- rows ascend in their positions, and both orders follow from that
  have hasc := ascending_aggregate hranks declared entries sessions users
  have hmaps : ∀ dimensions, dimensions ∈ { dimensions | Occurs entries sessions users dimensions ∨
        (entries = [] ∧ sessions = [] ∧ users = []) ∧ Dimensions.LeavesUnset declared dimensions } ↔
      dimensions ∈ combinations declared entries sessions users := by
    intro dimensions
    rw [Set.mem_ofPred_eq, mem_combinations, Dimensions.eq_unset_iff]
  constructor
  · intro dimensions
    rw [hmaps]
    constructor
    · intro h
      obtain ⟨metric, hmetric, rfl⟩ := List.mem_map.1 h
      obtain ⟨dimensions, hmem, ⟨step, -, rfl⟩ | rfl⟩ := mem_aggregate.1 hmetric
      · exact hmem
      · exact hmem
    · intro hmem
      exact List.mem_map.2 ⟨_, mem_aggregate.2 ⟨dimensions, hmem, .inr rfl⟩, rfl⟩
  · intro dimensions hmem step hstep
    have hmem := (hmaps dimensions).1 hmem
    have hrow := mem_aggregate.2 ⟨dimensions, hmem, .inl ⟨step, hstep, rfl⟩⟩
    refine ⟨_, hrow, rfl, fun other hother hstage => ?_⟩
    exact (existsUnique_isStage hranks hmem ⟨step, hstep, rfl⟩).unique ⟨hother, hstage⟩
      ⟨hrow, rfl, rfl, rfl⟩
  · intro metric hmetric hlevel
    obtain ⟨dimensions, -, ⟨step, hstep, rfl⟩ | rfl⟩ := mem_aggregate.1 hmetric
    · exact ⟨step, hstep, rfl, rfl⟩
    · cases hlevel
  · intro dimensions hmem
    exact existsUnique_isEndToEnd ((hmaps dimensions).1 hmem)
  · intro metric hmetric hlevel
    obtain ⟨dimensions, -, ⟨step, -, rfl⟩ | rfl⟩ := mem_aggregate.1 hmetric
    · cases hlevel
    · exact ⟨rfl, rfl⟩
  · exact hasc.imp precedes_iff.2
  · refine sortOn_eq_self (hasc.imp fun {a b} hlt => ?_)
    rw [hlt]
    rfl

end Metric

/-- Two steps, the later one in front. -/
def Step.visitSteps : List Step :=
  [{ rank := 2, name := "Cart", eventTypes := .empty },
    { rank := 1, name := "Home", eventTypes := .empty }]

/-- An entry without a journey and a session without entries, of two maps. -/
theorem Metric.aggregate_isTable_visitSteps :
    (Step.visitSteps.map Step.rank).Nodup ∧
      let web := NameMap.ofList [("os", some "web")]
      let entries : List Entry :=
        [{ user := "ann", session := "s1", stepName := "Home", stepRank := 1, enteredAt := ⟨10⟩,
            dimensions := web }]
      let sessions : List Journey :=
        [{ user := "bob", session := some "s7", dimensions := .empty, firstStep := 1,
            lastStep := 2, distinctSteps := 2, firstEnteredAt := ⟨0⟩, lastEnteredAt := ⟨5⟩,
            elapsedSeconds := 0, sessionCount := 1 }]
      Metric.IsTable Step.visitSteps
          { dimensions | Metric.Occurs entries sessions [] dimensions ∨
            (entries = [] ∧ sessions = [] ∧ ([] : List Journey) = []) ∧
              Dimensions.LeavesUnset ["os"] dimensions }
          (Metric.aggregate Step.visitSteps ["os"] entries sessions []) ∧
        (Metric.aggregate Step.visitSteps ["os"] entries sessions []).map Metric.label =
          [(.stage, some 1, some "Home", .empty), (.stage, some 2, some "Cart", .empty),
            (.endToEnd, none, none, .empty), (.stage, some 1, some "Home", web),
            (.stage, some 2, some "Cart", web), (.endToEnd, none, none, web)] := by
  have hranks : (Step.visitSteps.map Step.rank).Nodup := by decide
  refine ⟨hranks, Metric.aggregate_isTable Step.visitSteps ["os"] _ _ [] hranks, ?_⟩
  rw [Metric.map_label_aggregate]
  cbv

end Funnel
