import Funnel.Entry.Basic

/-!
# Journeys

A journey sums up how far a session got, or a user over all sessions. A session whose entries carry
different maps has one journey for each.
-/

namespace Funnel

open Time

/-- How far a session got, or a user if `session` is `none`. -/
structure Journey where
  user : String
  session : Option String
  dimensions : Dimensions
  firstStep : UInt32
  lastStep : UInt32
  distinctSteps : Nat
  firstEnteredAt : Instant
  lastEnteredAt : Instant
  elapsedSeconds : Int
  sessionCount : Nat
deriving DecidableEq

namespace Journey

/-- The summary of some entries; there is none of no entries. -/
def ofEntries? (user : String) (session : Option String) (dimensions : Dimensions)
    (entries : List Entry) : Option Journey := do
  let ranks := distinct (entries.map Entry.stepRank)
  let first ← firstMinOn? Entry.enteredAt entries
  let last ← firstMaxOn? Entry.enteredAt entries
  return {
    user, session, dimensions
    firstStep := ← ranks.head?
    lastStep := ← ranks.getLast?
    distinctSteps := ranks.length
    firstEnteredAt := first.enteredAt
    lastEnteredAt := last.enteredAt
    elapsedSeconds := last.enteredAt.secondsSince first.enteredAt
    sessionCount := (distinct (entries.map Entry.session)).length }

/-- One journey for each session and dimension map, in order of user, session and map. -/
def ofSessions (entries : List Entry) : List Journey :=
  (groupBy (fun entry => (entry.user, entry.session, entry.dimensions)) entries).filterMap
    fun ((user, session, dimensions), members) =>
      ofEntries? user (some session) dimensions members

/-- One journey for each user and dimension map, in order of user and map. -/
def ofUsers (entries : List Entry) : List Journey :=
  (groupBy (fun entry => (entry.user, entry.dimensions)) entries).filterMap
    fun ((user, dimensions), members) => ofEntries? user none dimensions members

end Journey

end Funnel
