import Funnel.Csv
import Funnel.Program
import Funnel.Text.Blank
import Funnel.Time.Rfc3339

/-!
# Filling the store

The tables are created and events are put into them: sample events, or those of a file. An event
whose key is there already is not put in again.
-/

namespace Funnel.Store

open Time

def createTables : Action Unit := do
  let during (what : String) (error : StoreError) : Failure :=
    Action.refusalOf ("while executing " ++ what ++ ": " ++ error.message) error
  Action.execute .begin (during "migrations")
  Action.execute .createTables (during "migration 1")
  Action.execute .commit (during "migrations")

/-- A sample event, some minutes after the first one. -/
structure Sample where
  user : String
  session : String
  eventType : String
  minutes : Int
  appVersion : String

def samples : List Sample :=
  [⟨"u-avery", "s-100", "LoadedHome", 0, "5.2.0"⟩,
    ⟨"u-avery", "s-100", "ViewedCart", 3, "5.2.0"⟩,
    ⟨"u-avery", "s-100", "PaymentSucceeded", 7, "5.2.0"⟩,
    ⟨"u-jules", "s-200", "LoadedHome", 10, "5.1.4"⟩,
    ⟨"u-jules", "s-200", "ViewedCart", 15, "5.1.4"⟩,
    ⟨"u-jules", "s-200", "ViewedCart", 16, "5.1.4"⟩,
    ⟨"u-jules", "s-201", "LoadedHome", 1440, "5.1.4"⟩,
    ⟨"u-jules", "s-201", "ViewedCart", 1443, "5.1.4"⟩,
    ⟨"u-jules", "s-201", "PaymentSucceeded", 1450, "5.1.4"⟩,
    ⟨"u-kiara", "s-300", "LoadedHome", 30, "5.2.0"⟩,
    ⟨"u-kiara", "s-300", "Heartbeat", 31, "5.2.0"⟩]

/-- The tiers of the users of the sample events. -/
def sampleTiers : List (String × String) :=
  [("u-avery", "gold"), ("u-jules", "silver"), ("u-kiara", "silver")]

def samplesStart : Instant :=
  ⟨Date.toDays ⟨2026, 2, 2⟩ * Instant.microsPerDay + 9 * 3600 * Instant.microsPerSecond⟩

/-- A sample event as a row, with its number as key. -/
def Sample.toNewEvent (sample : Sample) (id : String) (number : Nat) : NewEvent where
  id := id
  user := sample.user
  session := some sample.session
  eventType := sample.eventType
  occurredAt := ⟨samplesStart.micros + sample.minutes * 60 * Instant.microsPerSecond⟩
  properties := .object [("app_version", .string sample.appVersion)]
  sourceKey := "seed-" ++ padded 3 number

/-- Inserts the sample events and the tiers of their users; the result is the number of events that
were not there before. -/
def insertSamples : Action Nat := do
  let counts ← (samples.zipIdx 1).mapM fun (sample, number) => do
    let id ← Action.freshId
    Action.execute (.insertEvent (sample.toNewEvent id number))
  sampleTiers.forM fun (user, tier) =>
    Action.execute (.insertAttributes
      { user, observedAt := samplesStart, attributes := .object [("tier", .string tier)] })
  return total counts

/-- An event as a row of a file gives it. -/
structure ImportedEvent where
  user : String
  session : Option String
  eventType : String
  occurredAt : Instant
  properties : Json
  sourceKey : Option String

/-- Why a row gives no event: it has not as many fields as the header, a field is missing, repeated
or no timestamp, or its properties are no JSON. -/
inductive RowError
  | wrongLength
  | unfit
  | invalidProperties
deriving DecidableEq, Repr

/-- What is wrong with a row of some number, in words. -/
def RowError.message (row : Nat) : RowError → String
  | wrongLength => "CSV error"
  | unfit => "CSV deserialize error"
  | invalidProperties => "invalid properties JSON on row " ++ toString row

/-- The properties that a field gives; a blank field gives none. -/
def readProperties (field : Option String) : Except RowError Json :=
  let s := Text.trim (field.getD "")
  if s.isEmpty then .ok (.object [])
  else
    (Json.read s).mapError fun _ => .invalidProperties

/-- A timestamp cut to whole microseconds. -/
def readInstant (s : String) : Except RowError Instant :=
  match readNanos? s with
  | some nanos => .ok (.ofNanos nanos)
  | none => .error .unfit

def ImportedEvent.ofRow (header row : List String) : Except RowError ImportedEvent := do
  if row.length ≠ header.length then throw .wrongLength
  let required name := (Csv.field header row name).mapError fun _ => RowError.unfit
  let optional name := (Csv.optionalField header row name).mapError fun _ => RowError.unfit
  let user ← required "user_id"
  let session ← optional "session_id"
  let eventType ← required "event_type"
  let occurredAt ← readInstant (← required "occurred_at")
  let properties ← optional "properties"
  let sourceKey ← optional "source_key"
  return { user, session, eventType, occurredAt, sourceKey
           properties := ← readProperties properties }

/-- Inserts the event of a row. An event without a key gets one of its own; the result is one if
the event was not there before, else zero. -/
def importRow (header row : List String) (number : Nat) : Action Nat := do
  let event ← Action.expect (fun error => ⟨error.message number, []⟩)
    (ImportedEvent.ofRow header row)
  let sourceKey ← match event.sourceKey with
    | some key => pure key
    | none => do pure ("import-" ++ (← Action.freshId))
  let id ← Action.freshId
  let inserted ← Action.execute (.insertEvent
    { id
      user := event.user
      session := event.session
      eventType := event.eventType
      occurredAt := event.occurredAt
      properties := event.properties
      sourceKey })
  return min 1 (inserted : Nat)

/-- The text of a file with events. A directory counts as a file without text. -/
def importedText : Except Text.FileError String → Except Text.FileError String
  | .error .isDirectory => .ok ""
  | file => file

/-- Inserts the events of a file, one after the other; the result is the number of events that were
not there before. -/
def importEvents (path : String) : Action Nat := do
  let contents ← Action.expect (fun error => ⟨error.message, []⟩)
    (importedText (← Action.readFile path))
  let table := Csv.Table.ofText contents
  let counts ← (table.rows.zipIdx 1).mapM fun (row, number) => importRow table.header row number
  return total counts

end Funnel.Store
