import Funnel.Journey
import Funnel.Entry.Backfill
import Funnel.Entry.Canonical
import Funnel.Metric.Aggregate
import Funnel.Plan.Basic

/-!
# Running a plan

A run turns events and attribute records into the relation of entries and the relation of metrics,
and counts what became of the events.
-/

namespace Funnel

/-- A part of an event that must not be empty. -/
inductive EventPart
  | user
  | session
  | eventType
deriving DecidableEq, Repr

def EventPart.name : EventPart → String
  | user => "user_id"
  | session => "session_id"
  | eventType => "event_type"

/-- The first part of an event that is empty. -/
def Event.emptyPart? (event : Event) : Option EventPart :=
  if event.user.isEmpty then some .user
  else if event.session.isEmpty then some .session
  else if event.eventType.isEmpty then some .eventType
  else none

/-- An event with an empty part, by its place in the list of events. -/
structure EventDefect where
  index : Nat
  part : EventPart
deriving DecidableEq, Repr

def EventDefect.message (defect : EventDefect) : String :=
  "Invalid input row: event " ++ toString defect.index ++ " has an empty " ++ defect.part.name

def firstDefect? (events : List Event) : Option EventDefect :=
  events.zipIdx.findSome? fun (event, index) =>
    event.emptyPart?.map fun part => { index, part }

namespace Plan

/-- The events with the declared dimensions only, each with its step. -/
def classified (plan : Plan) (events : List Event) : List ClassifiedEvent :=
  classify plan.steps (events.map fun event =>
    { event with dimensions := event.dimensions.restrict plan.dimensions })

/-- The entries of the events, before anything is added to them. -/
def canonical (plan : Plan) (events : List Event) : Canonical :=
  Canonical.ofEvents (plan.classified events)

/-- The entries with those of skipped steps, if these are to be filled. -/
def filled (plan : Plan) (events : List Event) : List Entry :=
  let entries := (plan.canonical events).entries
  if plan.config.backfill then Entry.backfill plan.steps entries else entries

def entries (plan : Plan) (events : List Event) (records : List AttributeRecord) : List Entry :=
  Entry.attach plan.dimensions plan.selection records
    (Entry.sequence plan.config.mode (plan.filled events))

def metricsOf (plan : Plan) (entries : List Entry) : List Metric :=
  Metric.aggregate plan.steps plan.dimensions entries (Journey.ofSessions entries)
    (Journey.ofUsers entries)

end Plan

/-- What became of the events of a run. -/
structure RunStats where
  rawEvents : Nat
  matchedEvents : Nat
  unmappedByType : List (String × Nat)
  duplicatesRemoved : Nat
  backfilledEntries : Nat
  entries : Nat
  sessions : Nat
  users : Nat
  metrics : Nat
deriving DecidableEq

/-- The number of events that belong to no step. -/
def RunStats.unmappedEvents (stats : RunStats) : Nat :=
  total (stats.unmappedByType.map Prod.snd)

/-- The results of a run. -/
structure RunOutput where
  entries : List Entry
  metrics : List Metric
  stats : RunStats

namespace Plan

def output (plan : Plan) (events : List Event) (records : List AttributeRecord) : RunOutput :=
  let classified := plan.classified events
  let coverage := Coverage.ofEvents plan.steps classified
  let canonical := plan.canonical events
  let entries := plan.entries events records
  let metrics := plan.metricsOf entries
  { entries
    metrics
    stats :=
      { rawEvents := events.length
        matchedEvents := coverage.matchedCount
        unmappedByType := coverage.unmapped
        duplicatesRemoved := canonical.duplicates
        backfilledEntries := (plan.filled events).length - canonical.entries.length
        entries := entries.length
        sessions := (Journey.ofSessions entries).length
        users := (Journey.ofUsers entries).length
        metrics := metrics.length } }

/-- Runs the plan. Events with an empty user, session or type are refused, and with them the whole
run. -/
def run (plan : Plan) (events : List Event) (records : List AttributeRecord) :
    Except EventDefect RunOutput :=
  match firstDefect? events with
  | some defect => .error defect
  | none => .ok (plan.output events records)

end Plan

end Funnel
