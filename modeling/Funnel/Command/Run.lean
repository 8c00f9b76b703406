import Funnel.Command.Basic
import Funnel.Config.Error
import Funnel.Report
import Funnel.Store.Fetch
import Funnel.Store.Fill
import Funnel.Store.Publish

/-!
# Carrying out commands

Each command is a program. Nothing is asked of the store before the configuration has been read, and
nothing is written to it before a run has its results.
-/

namespace Funnel

namespace ConfigError

/-- What caused a configuration to be unusable: the error itself, and what is below it. -/
def causes (error : ConfigError) : List String :=
  error.message :: match error with
    | unreadable error => [error.message]
    | misread error => [error.message]
    | _ => []

end ConfigError

/-- The configuration in a file, however doubtful. -/
def loadConfig (path : String) : Action Config := do
  Action.expect (fun error => ⟨"failed to load funnel config " ++ path, error.causes⟩)
    (Config.load (← Action.readFile path))

def loadPlan (path : String) : Action Plan := do
  Action.expect
    (fun (error : ConfigError) =>
      ⟨"invalid funnel config " ++ path,
        ("Configuration error: " ++ error.message) :: error.causes⟩)
    (Config.load (← Action.readFile path) >>= Plan.ofConfig)

/-- What is printed of a run: what became of the events, how many entries there are, and how each
dimension combination did as a whole. -/
def RunOutput.summary (output : RunOutput) : String :=
  let stats := output.stats
  toString stats.rawEvents ++ " events, " ++ toString stats.matchedEvents ++ " matched, " ++
    toString stats.unmappedEvents ++ " unmapped, " ++ toString stats.duplicatesRemoved ++
    " duplicates removed, " ++ toString stats.backfilledEntries ++ " backfilled\n" ++
  toString stats.entries ++ " funnel rows across " ++ toString stats.sessions ++
    " sessions and " ++ toString stats.users ++ " users\n" ++
  String.join ((output.metrics.filter fun metric => metric.level == .endToEnd).map fun metric =>
    "- " ++ metric.dimensions.label ++ ": " ++ toString metric.completers ++ " of " ++
      toString metric.starters ++ " starters completed (" ++
      Report.percent metric.conversionRate ++ ")\n")

namespace Command

/-- A plan with the period that was asked for, which has to be positive. -/
def withPeriod (sinceDays : Option Int64) (plan : Plan) : Action Plan :=
  match sinceDays with
  | none => pure plan
  | some days =>
    if days ≤ 0 then
      Action.fail ⟨"--since-days must be positive, got " ++ toString days.toInt, []⟩
    else pure (plan.withPeriod days)

/-- The start of a plan's window. Where the calendar does not reach that far, the program ends. -/
def windowStart (plan : Plan) (runAt : Time.Instant) : Action (Option Time.Instant) :=
  match plan.windowStart runAt with
  | .ok start => pure start
  | .error .outsideCalendar => throw .crashed

/-- Runs the plan of a configuration and publishes the results unless it is a dry run. -/
def runPlan (path : String) (sinceDays : Option Int64) (dryRun : Bool) : Action Unit := do
  let plan ← withPeriod sinceDays (← loadPlan path)
  Action.connect
  let stamp : Store.Stamp := { runId := ← Action.freshId, runAt := ← Action.currentTime }
  let events ← Store.fetchEvents plan.config (← windowStart plan stamp.runAt)
  let records ← match plan.config.lookup with
    | some lookup => Store.fetchRecords lookup plan.dimensions
    | none => pure []
  let output ← Action.expect (fun defect => ⟨defect.message, []⟩) (plan.run events records)
  let destination := plan.config.destination
  unless dryRun do
    Store.publish destination stamp output
    Action.print ("Published " ++ destination.funnelTable ++ " and " ++
      destination.metricsTable ++ ".\n")
  Action.print output.summary

def writeReport (path out : String) : Action Unit := do
  let config ← loadConfig path
  Action.connect
  let (runAt, metrics) ← Store.fetchMetrics config.destination
  Action.expect (fun error => ⟨error.message, []⟩)
    (← Action.writeFile out (Report.text config.funnelName runAt metrics))
  Action.print ("Report written to " ++ out ++ ".\n")

def action : Command → Action Unit
  | initDb => do
    Action.connect
    Store.createTables
    Action.print "Schema ready.\n"
  | seed => do
    Action.connect
    let inserted ← Store.insertSamples
    Action.print ("Seed data inserted (" ++ toString inserted ++ " events).\n")
  | importEvents csv => do
    Action.connect
    let inserted ← Store.importEvents csv
    Action.print ("Inserted " ++ toString inserted ++ " events from " ++ csv ++ ".\n")
  | validate config => do
    let plan ← loadPlan config
    Action.print (String.join (plan.config.ambiguities.map fun ambiguity =>
      "warning: " ++ ambiguity.text ++ "\n"))
    Action.print plan.describe
  | run config sinceDays dryRun => runPlan config sinceDays dryRun
  | report config out => writeReport config out

end Command

/-- How the program ends. -/
inductive Ending
  | success
  | failure (failure : Failure)
  | crash
  | help
  | misuse
deriving DecidableEq

namespace Ending

def status : Ending → UInt8
  | success => 0
  | failure _ => 1
  | crash => 101
  | help => 0
  | misuse => 2

/-- How a command ends that ends in some way. -/
def ofResult : Except Abort Unit → Ending
  | .ok () => success
  | .error (.failed error) => failure error
  | .error .crashed => crash

end Ending

def Command.program (args : List String) : Program Ending :=
  match Command.ofArgs args with
  | .ok command => return .ofResult (← command.action.run)
  | .error .help => return .help
  | .error .misuse => return .misuse

end Funnel
