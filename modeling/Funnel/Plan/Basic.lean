import Funnel.Config.Validate

/-!
# Plans

A plan is a configuration that passed its checks, together with the period its run is limited to,
which may differ from the configured one. It says beforehand what a run will do.
-/

namespace Funnel

open Time

/-- A usable configuration and the period of a run. -/
structure Plan where
  config : Config
  accepted : config.check = .ok ()
  periodDays : Option Int64 := config.periodDays

namespace Plan

/-- The plan of a configuration that passes its checks. -/
def ofConfig (config : Config) : Except ConfigError Plan :=
  match h : config.check with
  | .ok () => .ok { config, accepted := h }
  | .error error => .error error

def steps (plan : Plan) : List Step :=
  plan.config.steps

def dimensions (plan : Plan) : List String :=
  plan.config.dimensions

/-- Which of several attribute records counts; the latest if nothing else is configured. -/
def selection (plan : Plan) : Selection :=
  (plan.config.lookup.map Lookup.selection).getD .latest

def withPeriod (plan : Plan) (days : Int64) : Plan :=
  { plan with periodDays := some days }

/-- The window of a run starts outside the calendar. -/
inductive WindowError
  | outsideCalendar
deriving DecidableEq, Repr

/-- The time before which events are left out of a run, if the plan has a period. -/
def windowStart (plan : Plan) (runAt : Instant) : Except WindowError (Option Instant) :=
  match plan.periodDays with
  | none => .ok none
  | some days =>
    match runAt.daysBefore? days.toInt with
    | some start => .ok (some start)
    | none => .error .outsideCalendar

end Plan

/-- Something that a run does, with what it looks at. -/
inductive Stage
  | classify (eventColumn : String) (steps : List Step)
  | deduplicate (userColumn : String) (sessionColumn : Option String)
  | backfill
  | sequence (userColumn : String) (sessionColumn : Option String) (timeColumn : String)
      (mode : ConversionMode)
  | attachDimensions (dimensions : List String) (lookupTable : Option String)
      (selection : Selection)
  | summarize
  | aggregate (maxRank : UInt32) (dimensions : List String)
deriving DecidableEq

namespace Stage

def name : Stage → String
  | classify .. => "classify"
  | deduplicate .. => "deduplicate"
  | backfill => "backfill"
  | sequence .. => "sequence"
  | attachDimensions .. => "attach_dimensions"
  | summarize => "summarize"
  | aggregate .. => "aggregate"

def detail : Stage → String
  | classify eventColumn steps =>
    toString steps.length ++ " steps matched on " ++ eventColumn
  | deduplicate userColumn sessionColumn =>
    "one row per (" ++ userColumn ++ ", " ++ sessionColumn.getD userColumn ++ ", step)"
  | backfill => "fill skipped lower steps"
  | sequence _ _ timeColumn mode => "order by " ++ timeColumn ++ ", conversion " ++ mode.name
  | attachDimensions dimensions lookupTable _ =>
    "[" ++ ", ".intercalate dimensions ++ "] from " ++ lookupTable.getD "event properties"
  | summarize => "session and user journeys"
  | aggregate maxRank _ =>
    toString maxRank.toNat ++ " stage rows + 1 e2e row per combination"

end Stage

namespace Plan

/-- The stages of a run. Only what is configured to be backfilled is, and without dimensions there
are none to attach. -/
def stages (plan : Plan) : List Stage :=
  let source := plan.config.source
  [.classify source.eventColumn plan.steps,
    .deduplicate source.userColumn source.sessionColumn] ++
  (if plan.config.backfill then [.backfill] else []) ++
  [.sequence source.userColumn source.sessionColumn source.timeColumn plan.config.mode] ++
  (if plan.dimensions.isEmpty then []
    else [.attachDimensions plan.dimensions (plan.config.lookup.map Lookup.table)
      plan.selection]) ++
  [.summarize, .aggregate plan.config.maxRank plan.dimensions]

/-- The plan in words, a line for its name and one for each stage. -/
def describe (plan : Plan) : String :=
  "Plan for " ++ plan.config.funnelName ++ "\n" ++
    String.join ((plan.stages.zipIdx 1).map fun (stage, number) =>
      toString number ++ ". " ++ stage.name ++ ": " ++ stage.detail ++ "\n")

end Plan

end Funnel
