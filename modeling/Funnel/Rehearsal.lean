import Funnel.Directory
import Funnel.Program
import Funnel.Text.Blank

/-!
# Rehearsals

Carries out a program without touching anything: files are kept in memory, and the store is a script
of answers that notes what it is asked. A statement may be made to be refused.
-/

namespace Funnel

/-- A store refuses every statement whose text has a certain part, and gives a reason. -/
structure Refusal where
  part : String
  reason : String

/-- The answers of a store. -/
structure StoreScript where
  events : List Store.EventRow
  records : List AttributeRecord
  metrics : List Store.MetricRow
  sourceKeys : List String
  refusal : Option Refusal

/-- What a program will find: a directory, a store or none, identifiers by number, and the time. -/
structure Script where
  files : Directory
  store : Option StoreScript
  identifier : Nat → String
  currentTime : Time.Instant

/-- How things stand after some requests. -/
structure Rehearsal where
  files : Directory
  written : List String
  identifiers : Nat
  sourceKeys : List String
  statements : List Store.Statement
  printed : List String

namespace Rehearsal

def start (script : Script) : Rehearsal where
  files := script.files
  written := []
  identifiers := 0
  sourceKeys := (script.store.map StoreScript.sourceKeys).getD []
  statements := []
  printed := []

/-- One text is a part of another. -/
def isPart (part : List Char) : List Char → Bool
  | [] => part.isEmpty
  | c :: cs => part.isPrefixOf (c :: cs) || isPart part cs

/-- The text of a statement as it is noted, on one line. -/
def noted (statement : Store.Statement) : String :=
  Text.squeeze statement.sql

/-- The script has a statement refused. -/
def refusal? (script : StoreScript) (statement : Store.Statement) : Option Store.StoreError :=
  script.refusal.bind fun refusal =>
    if isPart refusal.part.toList (noted statement).toList then some ⟨refusal.reason⟩ else none

/-- The row of a record: a column for each dimension. -/
def attributeRow (dimensions : List String) (record : AttributeRecord) : Store.AttributeRow where
  user := record.user
  session := record.session
  observedAt := record.observedAt
  dimensions := dimensions.map fun name => (name, record.values.value name)

/-- The answer to a statement that is not refused, and the source keys that are there then. -/
def reply (script : StoreScript) (sourceKeys : List String) :
    (statement : Store.Statement) → statement.Answer × List String
  | .insertEvent event =>
    if event.sourceKey ∈ sourceKeys then ((0 : Nat), sourceKeys)
    else ((1 : Nat), event.sourceKey :: sourceKeys)
  | .selectEvents .. => (script.events, sourceKeys)
  | .selectAttributes _ dimensions => (script.records.map (attributeRow dimensions), sourceKeys)
  | .selectMetrics _ => (script.metrics, sourceKeys)
  | .begin | .commit | .createTables | .insertAttributes _ | .createSchema _
  | .createFunnelTable _ | .createMetricsTable _ | .deleteAll _ | .insertEntries ..
  | .insertMetrics .. => ((), sourceKeys)

/-- The answer to a request, and how things stand after it. -/
def answer (script : Script) (r : Rehearsal) : (request : Request) → request.Answer × Rehearsal
  | .readFile path => (r.files.read path, r)
  | .writeFile path contents =>
    match r.files.write path contents with
    | .ok (name, files) => (.ok (), { r with files, written := name.toList ++ r.written })
    | .error error => (.error error, r)
  | .print text => ((), { r with printed := text :: r.printed })
  | .freshId =>
    (script.identifier r.identifiers, { r with identifiers := r.identifiers + 1 })
  | .currentTime => (script.currentTime, r)
  | .connect =>
    (match script.store with
      | some _ => .ok ()
      | none => .error .addressMissing, r)
  | .execute statement =>
    let r := { r with statements := statement :: r.statements }
    match script.store with
    | none => (.error ⟨"there is no store"⟩, r)
    | some store =>
      match refusal? store statement with
      | some error => (.error error, r)
      | none =>
        let (result, sourceKeys) := reply store r.sourceKeys statement
        (.ok result, { r with sourceKeys })

def carryOut {α : Type} (script : Script) : Program α → Rehearsal → α × Rehearsal
  | .done result, r => (result, r)
  | .ask request next, r =>
    let (answer, r) := answer script r request
    carryOut script (next answer) r

/-- The files that were written, with their contents in the end. -/
def writtenFiles (r : Rehearsal) : Directory :=
  r.files.filter fun file => file.1 ∈ r.written

def output (r : Rehearsal) : String :=
  String.join r.printed.reverse

end Rehearsal

end Funnel
