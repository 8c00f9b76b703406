import Funnel.Config.Basic
import Funnel.Json.Decoder

namespace Funnel

open Json (Decoder Record ReadError)

def ConversionMode.choices : List (String × ConversionMode) :=
  [.anyLaterEvent, .higherRank].map fun mode => (mode.name, mode)

def Selection.choices : List (String × Selection) :=
  [.latest, .earliest].map fun selection => (selection.name, selection)

def Source.fields : Record Source :=
  Record.make Source.mk
    |>.required "table" Decoder.text
    |>.required "user_id_column" Decoder.text
    |>.optional "session_id_column" (Decoder.nullable Decoder.text) none
    |>.required "event_column" Decoder.text
    |>.required "timestamp_column" Decoder.text
    |>.optional "properties_column" (Decoder.nullable Decoder.text) none

def Lookup.fields : Record Lookup :=
  Record.make Lookup.mk
    |>.required "table" Decoder.text
    |>.required "user_id_column" Decoder.text
    |>.optional "session_id_column" (Decoder.nullable Decoder.text) none
    |>.required "observed_at_column" Decoder.text
    |>.optional "attributes_column" (Decoder.nullable Decoder.text) none
    |>.optional "selection" (Decoder.choice Selection.choices) .latest

def Destination.fields : Record Destination :=
  Record.make Destination.mk
    |>.required "schema" Decoder.text
    |>.required "prefix" Decoder.text

/-- A set of texts, written as an array. -/
def TextSet.decoder : Decoder TextSet := fun cs =>
  (Decoder.list Decoder.text cs).map TextSet.ofTexts

def Step.fields : Record Step :=
  Record.make Step.mk
    |>.required "rank" Decoder.uint32
    |>.required "name" Decoder.text ["screen_name"]
    |>.required "matching_event_types" TextSet.decoder ["loaded_events"]

namespace Config

def fields : Record Config :=
  Record.make Config.mk
    |>.required "funnel_name" Decoder.text
    |>.required "source" (Source.fields.decode "SourceBindings" true)
    |>.required "destination" (Destination.fields.decode "Destination" false)
    |>.optional "time_period_days" (Decoder.nullable Decoder.int64) none
    |>.optional "filters" (Decoder.list Decoder.text) []
    |>.required "steps" (Decoder.list (Step.fields.decode "StepDefinition" false))
    |>.optional "dimensions" (Decoder.list Decoder.text) []
    |>.optional "dimension_lookup"
      (Decoder.nullable (Lookup.fields.decode "DimensionLookup" true)) none
    |>.optional "conversion_mode" (Decoder.choice ConversionMode.choices) .anyLaterEvent
    |>.optional "backfill_skipped_steps" Decoder.bool false

def ofText (s : String) : Except ReadError Config :=
  (Decoder.ofText (fields.decode "FunnelConfig" true) s).map ranked

end Config

def Source.toJson (source : Source) : Json :=
  .object [
    ("table", .string source.table),
    ("user_id_column", .string source.userColumn),
    ("session_id_column", Json.textOrNull source.sessionColumn),
    ("event_column", .string source.eventColumn),
    ("timestamp_column", .string source.timeColumn),
    ("properties_column", Json.textOrNull source.propertiesColumn)]

def Lookup.toJson (lookup : Lookup) : Json :=
  .object [
    ("table", .string lookup.table),
    ("user_id_column", .string lookup.userColumn),
    ("session_id_column", Json.textOrNull lookup.sessionColumn),
    ("observed_at_column", .string lookup.timeColumn),
    ("attributes_column", Json.textOrNull lookup.attributesColumn),
    ("selection", .string lookup.selection.name)]

def Destination.toJson (destination : Destination) : Json :=
  .object [("schema", .string destination.schema), ("prefix", .string destination.stem)]

def Step.toJson (step : Step) : Json :=
  .object [
    ("rank", .integer step.rank.toNat),
    ("name", .string step.name),
    ("matching_event_types", Json.ofTexts step.eventTypes.names)]

/-- A configuration in JSON, with all of its fields. -/
def Config.toJson (config : Config) : Json :=
  .object [
    ("funnel_name", .string config.funnelName),
    ("source", config.source.toJson),
    ("destination", config.destination.toJson),
    ("time_period_days", (config.periodDays.map fun days => Json.integer days.toInt).getD .null),
    ("filters", Json.ofTexts config.filters),
    ("steps", .array (config.steps.map Step.toJson)),
    ("dimensions", Json.ofTexts config.dimensions),
    ("dimension_lookup", (config.lookup.map Lookup.toJson).getD .null),
    ("conversion_mode", .string config.mode.name),
    ("backfill_skipped_steps", .bool config.backfill)]

end Funnel
