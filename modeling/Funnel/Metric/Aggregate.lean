import Funnel.Journey
import Funnel.Metric.Basic

/-!
# From entries and journeys to metrics

Metrics are computed for each dimension combination on its own. The rows of steps are computed from
the entries of the combination, the row of the whole funnel from its journeys.
-/

namespace Funnel

open Time

/-- What belongs to one dimension combination. -/
structure Slice where
  dimensions : Dimensions
  entries : List Entry
  sessions : List Journey
  users : List Journey

/-- Counts and averages of a row, whatever it is about. -/
structure Averages where
  secondsToReach : Option Float
  secondsToConvert : Option Float
  sessionsToReach : Option Float
  sessionsToConvert : Option Float

/-- The row of some counts and averages; users who started and did not complete dropped off. -/
def Metric.ofCounts (level : Level) (step : Option Step) (dimensions : Dimensions)
    (starters completers : Nat) (averages : Averages) : Metric where
  level := level
  stepRank := step.map Step.rank
  stepName := step.map Step.name
  dimensions := dimensions
  starters := starters
  completers := completers
  dropoffs := starters - completers
  conversionRate := ratePct completers starters
  dropoffRate := ratePct (starters - completers) starters
  secondsToReach := averages.secondsToReach
  secondsToConvert := averages.secondsToConvert
  sessionsToReach := averages.sessionsToReach
  sessionsToConvert := averages.sessionsToConvert

namespace Slice

/-- The sessions of each user, numbered from one in order of first entry and session id. A session
with several journeys has the number of its first. -/
def ordinals (sessions : List Journey) : List ((String × String) × Nat) :=
  (groupBy Journey.user (sessions.filter (·.session.isSome))).flatMap fun (user, journeys) =>
    let ordered := distinctRuns
      ((sortOn (fun j => (j.firstEnteredAt, j.session.getD "")) journeys).map
        fun j => j.session.getD "")
    (ordered.zipIdx 1).map fun (session, ordinal) => ((user, session), ordinal)
where
  /-- The elements of a list, repeated neighbours once. -/
  distinctRuns (ids : List String) : List String :=
    (runs id ids).map Prod.fst

/-- The number of an entry's session, one for a session without journeys. -/
def ordinal (table : List ((String × String) × Nat)) (entry : Entry) : Nat :=
  (table.lookup entry.sessionKey).getD 1

/-- The least session number among some entries. -/
def leastOrdinal? (table : List ((String × String) × Nat)) (entries : List Entry) : Option Nat :=
  (entries.map (ordinal table)).min?

/-- The start of an entry's session: the first entry of the last journey of that session. -/
def sessionStart? (slice : Slice) (entry : Entry) : Option Instant :=
  (slice.sessions.findRev? fun j => j.user == entry.user && j.session == some entry.session).map
    Journey.firstEnteredAt

/-- The row of a step. Every user counts once: with the first session that reached the step or went
on from it, and with the mean of the times it took to go on. -/
def stepMetric (slice : Slice) (table : List ((String × String) × Nat)) (step : Step) : Metric :=
  let reached := slice.entries.filter fun entry => entry.stepRank == step.rank
  let converted := reached.filter Entry.converted
  let reachedBy := groupBy Entry.user reached
  let convertedBy := groupBy Entry.user converted
  Metric.ofCounts .stage (some step) slice.dimensions reachedBy.length convertedBy.length
    { secondsToReach := mean (reached.filterMap fun entry =>
        (slice.sessionStart? entry).map fun start =>
          Float.ofInt (entry.enteredAt.secondsSince start))
      secondsToConvert := mean (convertedBy.filterMap fun group =>
        mean (group.2.filterMap fun entry => entry.secondsToConvert.map Float.ofInt))
      sessionsToReach := mean (reachedBy.filterMap fun group =>
        (leastOrdinal? table group.2).map Float.ofNat)
      sessionsToConvert := mean (convertedBy.filterMap fun group =>
        (leastOrdinal? table group.2).map Float.ofNat) }

/-- The number of sessions of a user, by the user's last journey. -/
def sessionCount? (slice : Slice) (user : String) : Option Nat :=
  (slice.users.findRev? fun j => j.user == user).map Journey.sessionCount

def meanSessions (slice : Slice) (users : List String) : Option Float :=
  mean (users.filterMap fun user => (slice.sessionCount? user).map Float.ofNat)

/-- The row of the whole funnel. A session starts it at rank one and completes it by getting to the
last rank as well. -/
def endToEndMetric (slice : Slice) (lastRank : UInt32) : Metric :=
  let starting := slice.sessions.filter fun j => j.firstStep == 1
  let completing := starting.filter fun j => j.lastStep == lastRank
  let starters := distinct (starting.map Journey.user)
  let completers := distinct (completing.map Journey.user)
  Metric.ofCounts .endToEnd none slice.dimensions starters.length completers.length
    { secondsToReach := mean (starting.map fun j => Float.ofInt j.elapsedSeconds)
      secondsToConvert := mean (completing.map fun j => Float.ofInt j.elapsedSeconds)
      sessionsToReach := slice.meanSessions starters
      sessionsToConvert := slice.meanSessions completers }

/-- The rows of a combination: one for each step in order of rank, and one for the funnel. -/
def metrics (slice : Slice) (steps : List Step) : List Metric :=
  let table := ordinals slice.sessions
  (sortOn Step.rank steps).map (slice.stepMetric table) ++
    [slice.endToEndMetric (Step.maxRank steps)]

/-- The part of some relations that belongs to one dimension map. -/
def ofDimensions (entries : List Entry) (sessions users : List Journey)
    (dimensions : Dimensions) : Slice where
  dimensions := dimensions
  entries := entries.filter fun entry => entry.dimensions == dimensions
  sessions := sessions.filter fun j => j.dimensions == dimensions
  users := users.filter fun j => j.dimensions == dimensions

end Slice

namespace Metric

/-- The dimension maps that occur in some relations, ascending; if there are none, the map that
leaves every declared dimension unset. -/
def combinations (declared : List String) (entries : List Entry) (sessions users : List Journey) :
    List Dimensions :=
  let occurring := distinct
    (entries.map Entry.dimensions ++ sessions.map Journey.dimensions ++
      users.map Journey.dimensions)
  if occurring.isEmpty then [Dimensions.unset declared] else occurring

def aggregate (steps : List Step) (declared : List String) (entries : List Entry)
    (sessions users : List Journey) : List Metric :=
  (combinations declared entries sessions users).flatMap fun dimensions =>
    (Slice.ofDimensions entries sessions users dimensions).metrics steps

end Metric

end Funnel
