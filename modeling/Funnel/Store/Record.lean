import Funnel.Dimensions.Json
import Funnel.Event.Basic
import Funnel.Entry.Attributes
import Funnel.Json.Reading
import Funnel.Metric.Basic
import Funnel.Text.Quoted

namespace Funnel.Store

open Time

/-- Why a column cannot be used for what it is wanted for. -/
inductive CellError
  | unexpectedNull
  | noInstant
  | misread (error : Json.ReadError)

def CellError.message : CellError → String
  | unexpectedNull => "unexpected null; try decoding as an `Option`"
  | noInstant =>
    "mismatched types; Rust type `chrono::datetime::DateTime<chrono::offset::utc::Utc>` " ++
      "(as SQL type `TIMESTAMPTZ`) is not compatible with SQL type `TEXT`"
  | misread error => error.message

/-- An unusable column by its name. -/
structure ColumnError where
  column : String
  error : CellError

def ColumnError.message (e : ColumnError) : String :=
  "error occurred while decoding column " ++ Text.quoted e.column ++ ": " ++ e.error.message

/-- A row of a source: an event with the text of its properties. -/
structure EventRow where
  user : String
  session : String
  eventType : String
  occurredAt : Instant
  properties : Option String

def EventRow.propertiesColumn : String := "properties"

/-- The event of a row, with some dimensions of its properties. -/
def EventRow.toEvent (dimensions : List String) (row : EventRow) : Except ColumnError Event := do
  let properties ← (row.properties.mapM Json.read).mapError fun error =>
    ⟨propertiesColumn, .misread error⟩
  return {
    user := row.user
    session := row.session
    eventType := row.eventType
    occurredAt := row.occurredAt
    dimensions := Dimensions.ofProperties properties dimensions }

/-- A row of a lookup: user, session and time, and behind them a column for each dimension. -/
structure AttributeRow where
  user : String
  session : Option String
  observedAt : Instant
  dimensions : List (String × Option String)

/-- What a column of a lookup holds. -/
inductive Cell
  | text (s : Option String)
  | instant (t : Instant)

namespace AttributeRow

def userColumn : String := "user_id"

def sessionColumn : String := "session_id"

def timeColumn : String := "observed_at"

def columns (row : AttributeRow) : List (String × Cell) :=
  [(userColumn, .text (some row.user)), (sessionColumn, .text row.session),
    (timeColumn, .instant row.observedAt)] ++
    row.dimensions.map fun (name, value) => (name, .text value)

/-- What a name stands for in a row: of several columns of one name, the last. -/
def cell? (row : AttributeRow) (name : String) : Option Cell :=
  (row.columns.findRev? fun column => column.1 == name).map Prod.snd

/-- The text in a column, if it holds one. -/
def text? (row : AttributeRow) (name : String) : Option String :=
  match row.cell? name with
  | some (.text s) => s
  | _ => none

def instant (row : AttributeRow) (name : String) : Except ColumnError Instant :=
  match row.cell? name with
  | some (.instant t) => .ok t
  | some (.text none) => .error ⟨name, .unexpectedNull⟩
  | _ => .error ⟨name, .noInstant⟩

/-- The record of a row. Every part is read by the name of its column, so that a dimension of the
same name hides it. -/
def toRecord (row : AttributeRow) : Except ColumnError AttributeRecord := do
  let some user := row.text? userColumn | throw ⟨userColumn, .unexpectedNull⟩
  return {
    user
    session := row.text? sessionColumn
    observedAt := ← row.instant timeColumn
    values := Dimensions.ofNames (row.dimensions.map Prod.fst) row.text? }

end AttributeRow

/-- The run that published a row, and its time. -/
structure Stamp where
  runId : String
  runAt : Instant
deriving DecidableEq

/-- A row of published metrics. Ranks are signed there, and counts too; there are no dimensions if
the column holds nothing that could be read. -/
structure MetricRow where
  runAt : Instant
  level : String
  stepRank : Option Int32
  stepName : Option String
  dimensions : Option Json
  starters : Int64
  completers : Int64
  dropoffs : Int64
  conversionRate : Option Float
  dropoffRate : Option Float
  secondsToReach : Option Float
  secondsToConvert : Option Float
  sessionsToReach : Option Float
  sessionsToConvert : Option Float

def MetricRow.ofMetric (runAt : Instant) (metric : Metric) : MetricRow where
  runAt := runAt
  level := metric.level.name
  stepRank := metric.stepRank.map UInt32.toInt32
  stepName := metric.stepName
  dimensions := some metric.dimensions.toJson
  starters := Int64.ofNat metric.starters
  completers := Int64.ofNat metric.completers
  dropoffs := Int64.ofNat metric.dropoffs
  conversionRate := metric.conversionRate
  dropoffRate := metric.dropoffRate
  secondsToReach := metric.secondsToReach
  secondsToConvert := metric.secondsToConvert
  sessionsToReach := metric.sessionsToReach
  sessionsToConvert := metric.sessionsToConvert

/-- Why a row is no metric. -/
inductive MetricRowError
  | noDimensions
  | unknownLevel (name : String)
  | misshapen (error : Json.ShapeError)

def MetricRow.toMetric (row : MetricRow) : Except MetricRowError Metric := do
  let some dimensions := row.dimensions | throw .noDimensions
  let some level := Level.ofName? row.level | throw (.unknownLevel row.level)
  return {
    level
    stepRank := row.stepRank.map Int32.toUInt32
    stepName := row.stepName
    dimensions := ← (Dimensions.ofJson dimensions).mapError .misshapen
    starters := row.starters.toUInt64.toNat
    completers := row.completers.toUInt64.toNat
    dropoffs := row.dropoffs.toUInt64.toNat
    conversionRate := row.conversionRate
    dropoffRate := row.dropoffRate
    secondsToReach := row.secondsToReach
    secondsToConvert := row.secondsToConvert
    sessionsToReach := row.sessionsToReach
    sessionsToConvert := row.sessionsToConvert }

/-- An event to be put into the table of events, under a key that tells repetitions. -/
structure NewEvent where
  id : String
  user : String
  session : Option String
  eventType : String
  occurredAt : Instant
  properties : Json
  sourceKey : String

/-- Attributes of a user to be put into the table of attributes. -/
structure NewAttributes where
  user : String
  observedAt : Instant
  attributes : Json

end Funnel.Store
