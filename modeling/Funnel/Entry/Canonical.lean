import Funnel.Entry.Basic

/-!
# One event for each step of a session

A session may show the same step many times. One event stands for all of them: the latest, and of
those at the same time the one with the greatest type.
-/

namespace Funnel

open Time

namespace ClassifiedEvent

/-- Events of one slot are repetitions of each other. -/
def slot (event : ClassifiedEvent) : String × String × String × Option UInt32 :=
  (event.user, event.session, event.stepName, event.stepRank)

/-- The key of precedence within a slot: the later event, then the greater type. -/
def precedence (event : ClassifiedEvent) : Instant × String :=
  (event.occurredAt, event.eventType)

/-- The entry of an event that belongs to a step. -/
def enters? (event : ClassifiedEvent) : Option Entry :=
  event.stepRank.map fun rank =>
    { user := event.user
      session := event.session
      stepName := event.stepName
      stepRank := rank
      enteredAt := event.occurredAt
      dimensions := event.dimensions }

end ClassifiedEvent

/-- The events that stand for the slots of a list, and how many others there were. -/
structure Canonical where
  entries : List Entry
  unmapped : List ClassifiedEvent
  duplicates : Nat
deriving DecidableEq

namespace Canonical

/-- The event that stands for each slot, in order of slot: of those of greatest precedence the
first. -/
def kept (events : List ClassifiedEvent) : List ClassifiedEvent :=
  (groupBy ClassifiedEvent.slot events).filterMap fun group =>
    firstMaxOn? ClassifiedEvent.precedence group.2

/-- The canonical form of a list of events. -/
def ofEvents (events : List ClassifiedEvent) : Canonical where
  entries := (kept events).filterMap ClassifiedEvent.enters?
  unmapped := (kept events).filter fun event => event.stepRank.isNone
  duplicates := events.length - (kept events).length

end Canonical

end Funnel
