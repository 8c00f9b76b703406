import Funnel.Metric.Basic
import Funnel.Number.Fixed
import Funnel.Time.Rfc3339

/-!
# The report

Published metrics as a text with one section for each dimension combination.
-/

namespace Funnel.Report

open Time

/-- What stands for an absent figure. -/
def absent : String := "n/a"

def percent : Option Float → String
  | none => absent
  | some x => Number.fixed 1 x ++ "%"

/-- A time in the greatest unit that it fills: seconds without places, minutes, hours and days with
one. -/
def duration : Option Float → String
  | none => absent
  | some seconds =>
    if seconds < 60.0 then Number.fixed 0 seconds ++ "s"
    else if seconds < 3600.0 then Number.fixed 1 (seconds / 60.0) ++ "m"
    else if seconds < 86400.0 then Number.fixed 1 (seconds / 3600.0) ++ "h"
    else Number.fixed 1 (seconds / 86400.0) ++ "d"

def sessions : Option Float → String
  | none => absent
  | some x => Number.fixed 2 x

/-- The first lines: the funnel's name and the time of the run, if there was one. -/
def header (funnelName : String) (runAt : Option Instant) : List String :=
  ["# Funnel Report: " ++ funnelName,
    match runAt with
    | some t => "Computed at " ++ t.minuteText
    | none => "No published run found."]

def endToEndLine (metric : Metric) : String :=
  toString metric.completers ++ " of " ++ toString metric.starters ++
    " starters completed the funnel (" ++ percent metric.conversionRate ++ "), averaging " ++
    duration metric.secondsToConvert ++ " and " ++ sessions metric.sessionsToConvert ++
    " sessions to convert."

def columns : List String :=
  ["#", "Step", "Starters", "Completers", "Dropoffs", "Conversion", "Avg time to convert"]

def tableLine (cells : List String) : String :=
  "| " ++ " | ".intercalate cells ++ " |"

def stageCells (metric : Metric) : List String :=
  [(metric.stepRank.map fun rank => toString rank.toNat).getD "",
    metric.stepName.getD "",
    toString metric.starters,
    toString metric.completers,
    toString metric.dropoffs,
    percent metric.conversionRate,
    duration metric.secondsToConvert]

/-- The lines of one combination: a blank line, the heading, the sentence about the first row that
is about the whole funnel, another blank line, and the table of steps in order of rank. -/
def sectionLines (dimensions : Dimensions) (metrics : List Metric) : List String :=
  let stages := sortOn Metric.stepRank (metrics.filter fun m => m.level == .stage)
  ["", "## " ++ Dimensions.label dimensions] ++
    ((metrics.find? fun m => m.level == .endToEnd).map endToEndLine).toList ++
    ["", tableLine columns, "|" ++ String.join (columns.map fun _ => "---|")] ++
    stages.map fun metric => tableLine (stageCells metric)

/-- The lines of a report, one section for each combination in ascending order. -/
def lines (funnelName : String) (runAt : Option Instant) (metrics : List Metric) : List String :=
  header funnelName runAt ++
    if metrics.isEmpty then ["", "No metrics recorded for this funnel."]
    else (groupBy Metric.dimensions metrics).flatMap fun group => sectionLines group.1 group.2

/-- A report. Every line ends with a line feed. -/
def text (funnelName : String) (runAt : Option Instant) (metrics : List Metric) : String :=
  String.join ((lines funnelName runAt metrics).map (· ++ "\n"))

end Funnel.Report
