import Funnel.Program

namespace Funnel.Store

open Time

def columnFailure (error : ColumnError) : Failure :=
  ⟨error.message, [error.error.message]⟩

/-- The events of a configuration's source, from some time on or all of them. -/
def fetchEvents (config : Config) (since : Option Instant) : Action (List Event) := do
  let source := config.source
  let rows ← Action.execute (.selectEvents source config.filters since)
    (Action.refusalOf ("failed to read events from " ++ source.table))
  Action.expect columnFailure (rows.mapM (EventRow.toEvent config.dimensions))

/-- An unusable column of a lookup as a failure. -/
def lookupFailure (lookup : Lookup) (error : ColumnError) : Failure :=
  if error.column = AttributeRow.timeColumn then
    ⟨lookup.timeColumn ++ " is not a timestamp", [error.message, error.error.message]⟩
  else columnFailure error

def fetchRecords (lookup : Lookup) (dimensions : List String) :
    Action (List AttributeRecord) := do
  let rows ← Action.execute (.selectAttributes lookup dimensions)
    (Action.refusalOf ("failed to read dimension lookup " ++ lookup.table))
  Action.expect (lookupFailure lookup) (rows.mapM AttributeRow.toRecord)

def readMetrics (rows : List MetricRow) : Except MetricRowError (List Metric) :=
  (rows.mapM MetricRow.toMetric).map (sortOn Metric.position)

/-- How a program ends for which a row is no metric. -/
def MetricRowError.abort : MetricRowError → Abort
  | noDimensions => .crashed
  | unknownLevel name => .failed ⟨"unknown analysis level " ++ Text.quoted name, []⟩
  | misshapen error => .failed ⟨error.message, []⟩

/-- The published metrics of a destination in order, and the time of their run. -/
def fetchMetrics (destination : Destination) : Action (Option Instant × List Metric) := do
  let table := destination.metricsTable
  let rows ← Action.execute (.selectMetrics table) (Action.refusalOf ("failed to read " ++ table))
  match readMetrics rows with
  | .ok metrics => return (rows.getLast?.map MetricRow.runAt, metrics)
  | .error error => throw error.abort

end Funnel.Store
