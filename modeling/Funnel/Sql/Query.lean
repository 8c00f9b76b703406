import Funnel.Config.Basic

namespace Funnel.Sql

/-- A value of some type under a new name. -/
def column (value type name : String) : String :=
  value ++ "::" ++ type ++ " AS " ++ name

/-- A column of texts, of nulls where there is no such column. -/
def optionalColumn (value : Option String) (type : String) : String :=
  value.getD "NULL" ++ "::" ++ type

/-- The condition that a value is there. -/
def present (value : String) : String :=
  value ++ " IS NOT NULL"

/-- The events of a source that pass some filters. A windowed query leaves out what is before its
parameter; without a session column the user is the session. -/
def eventsQuery (source : Source) (filters : List String) (windowed : Bool) : String :=
  let session := source.sessionColumn.getD source.userColumn
  "SELECT " ++ ", ".intercalate [
      column source.userColumn "text" "user_id",
      column session "text" "session_id",
      column source.eventColumn "text" "event_type",
      column source.timeColumn "timestamptz" "occurred_at",
      optionalColumn source.propertiesColumn "jsonb" ++ " AS properties"] ++
    " FROM " ++ source.table ++
    " WHERE " ++ " AND ".intercalate
      ([source.userColumn, session, source.eventColumn, source.timeColumn].map present) ++
    (if windowed then " AND " ++ source.timeColumn ++ "::timestamptz >= $1" else "") ++
    String.join (filters.map fun filter => " AND (" ++ filter ++ ")")

/-- The value of a dimension: a member of the attributes if they are a column of their own, else a
column of the same name. -/
def dimensionColumn (attributesColumn : Option String) (dimension : String) : String :=
  match attributesColumn with
  | some attributes => attributes ++ "::jsonb ->> '" ++ dimension ++ "' AS " ++ dimension
  | none => column dimension "text" dimension

def attributesQuery (lookup : Lookup) (dimensions : List String) : String :=
  "SELECT " ++ ", ".intercalate [
      column lookup.userColumn "text" "user_id",
      optionalColumn lookup.sessionColumn "text" ++ " AS session_id",
      column lookup.timeColumn "timestamptz" "observed_at",
      ", ".intercalate (dimensions.map (dimensionColumn lookup.attributesColumn))] ++
    " FROM " ++ lookup.table ++
    " WHERE " ++ " AND ".intercalate ([lookup.userColumn, lookup.timeColumn].map present)

/-- The columns of published metrics after those of the run's id and time. -/
def metricsColumns : List String :=
  ["analysis_level", "step_rank", "step_name", "dimension_values", "starters_count",
    "completers_count", "dropoffs_count", "conversion_rate_pct", "dropoff_rate_pct",
    "avg_time_to_reach_seconds", "avg_time_to_convert_seconds", "avg_sessions_to_reach",
    "avg_sessions_to_convert"]

/-- A published relation of metrics, each row with the time of its run. -/
def metricsQuery (table : String) : String :=
  "SELECT " ++ ", ".intercalate ("run_at" :: metricsColumns) ++ " FROM " ++ table

end Funnel.Sql
