import Funnel.Entry.Basic
import Funnel.Sql.Query
import Funnel.Store.Record

/-!
# Statements

Everything that is ever asked of the store. A statement is kept as what it means; its text and its
parameters are made from that.
-/

namespace Funnel.Store

open Time

/-- A statement to the store. -/
inductive Statement
  | begin
  | commit
  | createTables
  | insertEvent (event : NewEvent)
  | insertAttributes (attributes : NewAttributes)
  | selectEvents (source : Source) (filters : List String) (since : Option Instant)
  | selectAttributes (lookup : Lookup) (dimensions : List String)
  | createSchema (schema : String)
  | createFunnelTable (table : String)
  | createMetricsTable (table : String)
  | deleteAll (table : String)
  | insertEntries (table : String) (stamp : Stamp) (entries : List Entry)
  | insertMetrics (table : String) (stamp : Stamp) (metrics : List Metric)
  | selectMetrics (table : String)

namespace Statement

/-- What the store answers a statement with. For an event it is the number of rows that were put
in, which is zero if the event's key was there before. -/
def Answer : Statement → Type
  | insertEvent _ => Nat
  | selectEvents .. => List EventRow
  | selectAttributes .. => List AttributeRow
  | selectMetrics _ => List MetricRow
  | _ => Unit

end Statement

/-- A parameter of a statement. -/
inductive Param
  | null
  | text (s : String)
  | bool (b : Bool)
  | integer (n : Int)
  | float (x : Float)
  | instant (t : Instant)
  | json (value : Json)

def Param.ofOption {α : Type} (param : α → Param) : Option α → Param
  | none => null
  | some value => param value

/-- The parameters of the row that publishes an entry. -/
def entryParams (stamp : Stamp) (entry : Entry) : List Param :=
  [.text stamp.runId, .instant stamp.runAt, .text entry.user, .text entry.session,
    .text entry.stepName, .integer entry.stepRank.toInt32.toInt, .instant entry.enteredAt,
    .ofOption .text entry.previousStep, .ofOption .instant entry.nextEnteredAt,
    .bool entry.converted, .ofOption .integer entry.secondsToConvert, .bool entry.backfilled,
    .json entry.dimensions.toJson]

def metricRowParams (runId : String) (row : MetricRow) : List Param :=
  [.text runId, .instant row.runAt, .text row.level,
    .ofOption (fun rank => .integer rank.toInt) row.stepRank, .ofOption .text row.stepName,
    row.dimensions.elim .null .json, .integer row.starters.toInt, .integer row.completers.toInt,
    .integer row.dropoffs.toInt, .ofOption .float row.conversionRate,
    .ofOption .float row.dropoffRate, .ofOption .float row.secondsToReach,
    .ofOption .float row.secondsToConvert, .ofOption .float row.sessionsToReach,
    .ofOption .float row.sessionsToConvert]

def newEventParams (event : NewEvent) : List Param :=
  [.text event.id, .text event.user, .ofOption .text event.session, .text event.eventType,
    .instant event.occurredAt, .json event.properties, .text event.sourceKey]

namespace Statement

/-- The parameters of a statement that is no insertion of many rows. -/
def params : Statement → List Param
  | insertEvent event => newEventParams event
  | insertAttributes attributes =>
    [.text attributes.user, .instant attributes.observedAt, .json attributes.attributes]
  | selectEvents _ _ since => since.toList.map .instant
  | _ => []

/-- The rows of an insertion into a published relation. -/
def rows : Statement → Option (List (List Param))
  | insertEntries _ stamp entries => some (entries.map (entryParams stamp))
  | insertMetrics _ stamp metrics =>
    some (metrics.map fun metric =>
      metricRowParams stamp.runId (MetricRow.ofMetric stamp.runAt metric))
  | _ => none

end Statement

abbrev ColumnDefinition := String × String

def stampColumns : List ColumnDefinition :=
  [("run_id", "UUID NOT NULL"), ("run_at", "TIMESTAMPTZ NOT NULL")]

def entryColumns : List ColumnDefinition :=
  stampColumns ++
    [("user_id", "TEXT NOT NULL"),
      ("session_id", "TEXT NOT NULL"),
      ("step_name", "TEXT NOT NULL"),
      ("step_rank", "INTEGER NOT NULL"),
      ("entered_at", "TIMESTAMPTZ NOT NULL"),
      ("previous_step_name", "TEXT"),
      ("next_entered_at", "TIMESTAMPTZ"),
      ("converted", "BOOLEAN NOT NULL"),
      ("time_to_convert_seconds", "BIGINT"),
      ("backfilled", "BOOLEAN NOT NULL"),
      ("dimension_values", "JSONB NOT NULL")]

/-- The types of the columns of the relation of metrics, in order. -/
def metricTypes : List String :=
  ["TEXT NOT NULL", "INTEGER", "TEXT", "JSONB NOT NULL", "BIGINT NOT NULL", "BIGINT NOT NULL",
    "BIGINT NOT NULL", "DOUBLE PRECISION", "DOUBLE PRECISION", "DOUBLE PRECISION",
    "DOUBLE PRECISION", "DOUBLE PRECISION", "DOUBLE PRECISION"]

def metricColumns : List ColumnDefinition :=
  stampColumns ++ Sql.metricsColumns.zip metricTypes

def createTableText (table : String) (columns : List ColumnDefinition) : String :=
  "CREATE TABLE IF NOT EXISTS " ++ table ++ " ( " ++
    ", ".intercalate (columns.map fun (name, type) => name ++ " " ++ type) ++ " )"

/-- The text in front of the rows of an insertion. -/
def insertText (table : String) (columns : List String) : String :=
  "INSERT INTO " ++ table ++ " (" ++ ", ".intercalate columns ++ ") VALUES"

/-- The places of parameters, numbered from some number on. -/
def placeholders (first count : Nat) : String :=
  "(" ++ ", ".intercalate ((List.range' first count).map fun n => "$" ++ toString n) ++ ")"

def eventColumns : List ColumnDefinition :=
  [("id", "UUID PRIMARY KEY"),
    ("user_id", "TEXT NOT NULL"),
    ("session_id", "TEXT"),
    ("event_type", "TEXT NOT NULL"),
    ("occurred_at", "TIMESTAMPTZ NOT NULL"),
    ("properties", "JSONB NOT NULL DEFAULT '\x7b\x7d'::jsonb"),
    ("source_key", "TEXT NOT NULL UNIQUE"),
    ("created_at", "TIMESTAMPTZ NOT NULL DEFAULT now()")]

def attributeColumns : List ColumnDefinition :=
  [("user_id", "TEXT NOT NULL"),
    ("session_id", "TEXT"),
    ("observed_at", "TIMESTAMPTZ NOT NULL"),
    ("attributes", "JSONB NOT NULL DEFAULT '\x7b\x7d'::jsonb")]

/-- The texts that create the tables of events and attributes, as one. -/
def tablesText : String :=
  " ".intercalate
    ["CREATE SCHEMA IF NOT EXISTS funnel;",
      createTableText "funnel.events" eventColumns ++ ";",
      "CREATE INDEX IF NOT EXISTS events_occurred_at_idx ON funnel.events (occurred_at);",
      "CREATE INDEX IF NOT EXISTS events_user_session_idx ON funnel.events " ++
        "(user_id, session_id);",
      createTableText "funnel.user_attributes" attributeColumns ++ ";",
      "CREATE UNIQUE INDEX IF NOT EXISTS user_attributes_key_idx ON funnel.user_attributes " ++
        "(user_id, COALESCE(session_id, ''), observed_at);"]

/-- The text that inserts an event unless its key is there. -/
def insertEventText : String :=
  insertText "funnel.events" ["id", "user_id", "session_id", "event_type", "occurred_at",
    "properties", "source_key"] ++ " " ++ placeholders 1 7 ++
    " ON CONFLICT (source_key) DO NOTHING"

/-- The text that inserts attributes of a user unless they are there. -/
def insertAttributesText : String :=
  insertText "funnel.user_attributes" ["user_id", "session_id", "observed_at", "attributes"] ++
    " ($1, NULL, $2, $3) ON CONFLICT DO NOTHING"

namespace Statement

/-- The text of a statement. An insertion into a published relation ends where its rows begin. -/
def sql : Statement → String
  | begin => "BEGIN"
  | commit => "COMMIT"
  | createTables => tablesText
  | insertEvent _ => insertEventText
  | insertAttributes _ => insertAttributesText
  | selectEvents source filters since => Sql.eventsQuery source filters since.isSome
  | selectAttributes lookup dimensions => Sql.attributesQuery lookup dimensions
  | createSchema schema => "CREATE SCHEMA IF NOT EXISTS " ++ schema
  | createFunnelTable table => createTableText table entryColumns
  | createMetricsTable table => createTableText table metricColumns
  | deleteAll table => "DELETE FROM " ++ table
  | insertEntries table _ _ => insertText table (entryColumns.map Prod.fst)
  | insertMetrics table _ _ => insertText table (metricColumns.map Prod.fst)
  | selectMetrics table => Sql.metricsQuery table

end Statement

/-- A refusal of the store, in the store's words. -/
structure StoreError where
  reason : String
deriving DecidableEq, Repr

def StoreError.message (error : StoreError) : String :=
  "error returned from database: " ++ error.reason

end Funnel.Store
