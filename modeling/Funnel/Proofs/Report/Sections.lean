import Funnel.Proofs.Config.WellFormed
import Funnel.Proofs.Plan.Unity
import Funnel.Report

/-!
# The sections of a report

A report has one section for each combination, in ascending order, and no row of a combination gets
into the section of another one.
-/

namespace Funnel

open Time

namespace Report

/-- The cells of a step: its rank and name, and what its row says of it. -/
def stepCells (step : Step) (row : Metric) : List String :=
  [toString step.rank.toNat, step.name, toString row.starters, toString row.completers,
    toString row.dropoffs, percent row.conversionRate, duration row.secondsToConvert]

/-- The lines of a combination: a heading, a sentence about the row of the whole funnel, and a table
of seven columns with one line for each step in order of rank. -/
def combinationLines (steps : List Step) (dimensions : Dimensions) (total : Metric)
    (row : Step → Metric) : List String :=
  ["", "## " ++ dimensions.label, endToEndLine total, "",
    "| # | Step | Starters | Completers | Dropoffs | Conversion | Avg time to convert |",
    "|---|---|---|---|---|---|---|"] ++
    (sortOn Step.rank steps).map fun step => tableLine (stepCells step (row step))

/-- A report on metrics of some steps has one section for each of some combinations, made of one row
for the whole funnel and one for each step. -/
structure IsTabulated (steps : List Step) (metrics : List Metric) (maps : List Dimensions)
    (total : Dimensions → Metric) (row : Dimensions → Step → Metric) : Prop where
  /-- The combinations are those of the metrics, each once and in ascending order, -/
  mem_maps : ∀ dimensions, dimensions ∈ maps ↔ dimensions ∈ metrics.map Metric.dimensions
  ascending_maps : Ascending id maps
  /-- and so are the ranks of the steps. -/
  ascending_steps : Ascending Step.rank (sortOn Step.rank steps)
  /-- The row of the whole funnel is the one that a combination has, -/
  totals : ∀ dimensions ∈ maps, total dimensions ∈ metrics ∧
    (total dimensions).IsEndToEnd dimensions ∧
      ∀ other ∈ metrics, other.IsEndToEnd dimensions → other = total dimensions
  /-- and so is the row of each step, which has the name of the step. -/
  rows : ∀ dimensions ∈ maps, ∀ step ∈ steps, row dimensions step ∈ metrics ∧
    (row dimensions step).label = (.stage, some step.rank, some step.name, dimensions) ∧
      ∀ other ∈ metrics, other.IsStage dimensions step.rank → other = row dimensions step
  /-- These rows are all there is in the report behind its header. -/
  lines : ∀ (funnelName : String) (runAt : Option Instant),
    lines funnelName runAt metrics = header funnelName runAt ++
      maps.flatMap fun dimensions =>
        combinationLines steps dimensions (total dimensions) (row dimensions)

end Report

namespace Metric

variable {steps : List Step} {declared : List String} {entries : List Entry}
  {sessions users : List Journey} {dimensions : Dimensions}

/-- The rows of a combination are those that were computed for it. -/
theorem filter_aggregate (h : dimensions ∈ combinations declared entries sessions users) :
    (aggregate steps declared entries sessions users).filter
        (fun metric => metric.dimensions = dimensions) =
      (Slice.ofDimensions entries sessions users dimensions).metrics steps := by
  -- combinations ascend, so that no two groups have a map in common
  let groups := (combinations declared entries sessions users).map fun dimensions =>
    (dimensions, (Slice.ofDimensions entries sessions users dimensions).metrics steps)
  have hgroups : Ascending Prod.fst groups :=
    Ascending.map.2 (ascending_combinations declared entries sessions users)
  have hkeys : ∀ group ∈ groups, ∀ metric ∈ group.2, metric.dimensions = group.1 := by
    intro group hgroup metric hmetric
    obtain ⟨dimensions, -, rfl⟩ := List.mem_map.1 hgroup
    exact dimensions_of_mem_metrics hmetric
  have hfilter := filter_flatMap_of_mem hgroups hkeys (List.mem_map_of_mem h)
  rw [List.flatMap_map] at hfilter
  exact hfilter

theorem distinct_map_dimensions_aggregate :
    distinct ((aggregate steps declared entries sessions users).map Metric.dimensions) =
      combinations declared entries sessions users := by
  refine (ascending_distinct _).eq_of_mem_iff (ascending_combinations ..) fun dimensions => ?_
  rw [mem_distinct, mem_map_dimensions_aggregate]

end Metric

namespace Report

variable {metrics : List Metric} {steps : List Step}

/-- A report has a section for each combination of its metrics, made of the metrics of that
combination in their order. -/
theorem lines_eq (funnelName : String) (runAt : Option Instant) (h : metrics ≠ []) :
    lines funnelName runAt metrics = header funnelName runAt ++
      (distinct (metrics.map Metric.dimensions)).flatMap fun dimensions =>
        sectionLines dimensions
          (metrics.filter fun metric => metric.dimensions = dimensions) := by
  rw [lines, if_neg (by simpa using h), groupBy_eq, List.flatMap_map]

/-- The section of the rows that were computed for a combination. -/
theorem sectionLines_metrics (slice : Slice) (steps : List Step) :
    sectionLines slice.dimensions (slice.metrics steps) =
      combinationLines steps slice.dimensions (slice.endToEndMetric (Step.maxRank steps))
        (slice.stepMetric (Slice.ordinals slice.sessions)) := by
  let stages := (sortOn Step.rank steps).map (slice.stepMetric (Slice.ordinals slice.sessions))
  let total := slice.endToEndMetric (Step.maxRank steps)
  have hlevel : ∀ stage ∈ stages, stage.level = .stage := by
    intro stage hstage
    obtain ⟨step, -, rfl⟩ := List.mem_map.1 hstage
    rfl
  have hstages : (stages ++ [total]).filter (fun metric => metric.level == .stage) = stages := by
    rw [List.filter_append, List.filter_eq_self.2 fun stage hstage => by simp [hlevel stage hstage]]
    exact List.append_nil _
  have htotal : (stages ++ [total]).find? (fun metric => metric.level == .endToEnd) =
      some total := by
    rw [List.find?_append, List.find?_eq_none.2 fun stage hstage => by simp [hlevel stage hstage]]
    rfl
  -- the rows of steps were computed in the order in which a section sorts them
  have hsorted : sortOn Metric.stepRank stages = stages := by
    refine sortOn_eq_self (List.pairwise_map.2 ?_)
    exact pairwise_sortOn Step.rank steps
  have hlines : stages.map (fun metric => tableLine (stageCells metric)) =
      (sortOn Step.rank steps).map fun step => tableLine (stepCells step
        (slice.stepMetric (Slice.ordinals slice.sessions) step)) :=
    List.map_map
  have hmetrics : slice.metrics steps = stages ++ [total] := rfl
  rw [sectionLines, hmetrics, htotal, hstages, hsorted, hlines]
  rfl

/-- A report on the metrics of some entries and journeys has one section for each combination. -/
theorem isTabulated_aggregate (steps : List Step) (declared : List String) (entries : List Entry)
    (sessions users : List Journey) (hranks : (steps.map Step.rank).Nodup) :
    IsTabulated steps (Metric.aggregate steps declared entries sessions users)
      (Metric.combinations declared entries sessions users)
      (fun dimensions => (Slice.ofDimensions entries sessions users dimensions).endToEndMetric
        (Step.maxRank steps))
      (fun dimensions => (Slice.ofDimensions entries sessions users dimensions).stepMetric
        (Slice.ordinals (Slice.ofDimensions entries sessions users dimensions).sessions)) where
  mem_maps _ := Metric.mem_map_dimensions_aggregate.symm
  ascending_maps := Metric.ascending_combinations declared entries sessions users
  ascending_steps := ascending_sortOn hranks
  totals dimensions hmem := by
    have hrow : (Slice.ofDimensions entries sessions users dimensions).endToEndMetric
        (Step.maxRank steps) ∈ Metric.aggregate steps declared entries sessions users :=
      Metric.mem_aggregate.2 ⟨dimensions, hmem, .inr rfl⟩
    refine ⟨hrow, ⟨rfl, rfl⟩, fun other hother htotal => ?_⟩
    exact (Metric.existsUnique_isEndToEnd hmem).unique ⟨hother, htotal⟩ ⟨hrow, rfl, rfl⟩
  rows dimensions hmem step hstep := by
    have hrow := Metric.mem_aggregate.2 ⟨dimensions, hmem, .inl ⟨step, hstep, rfl⟩⟩
    refine ⟨hrow, rfl, fun other hother hstage => ?_⟩
    exact (Metric.existsUnique_isStage hranks hmem ⟨step, hstep, rfl⟩).unique ⟨hother, hstage⟩
      ⟨hrow, rfl, rfl, rfl⟩
  lines funnelName runAt := by
    -- each section is made of the rows of its combination alone
    rw [lines_eq funnelName runAt Metric.aggregate_ne_nil, Metric.distinct_map_dimensions_aggregate]
    refine congrArg (header funnelName runAt ++ ·) (List.flatMap_congr fun dimensions hmem => ?_)
    rw [Metric.filter_aggregate hmem]
    exact sectionLines_metrics (Slice.ofDimensions entries sessions users dimensions) steps

end Report

namespace Plan

variable {plan : Plan} {events : List Event} {records : List AttributeRecord}

/-- The row of the whole funnel in a run. -/
def totalOf (plan : Plan) (events : List Event) (records : List AttributeRecord)
    (dimensions : Dimensions) : Metric :=
  (Metric.sliceOf (plan.entries events records) dimensions).endToEndMetric
    (Step.maxRank plan.steps)

/-- The row of a step in a run. -/
def rowOf (plan : Plan) (events : List Event) (records : List AttributeRecord)
    (dimensions : Dimensions) : Step → Metric :=
  let slice := Metric.sliceOf (plan.entries events records) dimensions
  slice.stepMetric (Slice.ordinals slice.sessions)

theorem isTabulated_output (plan : Plan) (events : List Event) (records : List AttributeRecord) :
    Report.IsTabulated plan.steps (plan.output events records).metrics
      (Metric.combinationsOf plan.dimensions (plan.entries events records))
      (plan.totalOf events records) (plan.rowOf events records) :=
  Report.isTabulated_aggregate plan.steps plan.dimensions _ _ _ plan.nodup_ranks

/-- The metrics of a run are about maps of plain names. -/
theorem isPlainName_of_mem_metrics {metric : Metric} {name : String}
    (h : metric ∈ (plan.output events records).metrics) (hname : name ∈ metric.dimensions.names) :
    Sql.IsPlainName name := by
  obtain ⟨-, -, -, hdimensions, -⟩ := Config.check_eq_ok_iff.1 plan.accepted
  exact (Config.checkDimensions_eq_ok_iff.1 hdimensions).1 name
    ((mem_names_of_mem_metrics h).1 hname)

end Plan

end Funnel
