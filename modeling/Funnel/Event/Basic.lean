import Funnel.Dimensions.Basic
import Funnel.Time.Instant

/-!
# Events and steps

A funnel is a sequence of ranked steps. An event belongs to the lowest-ranked step that claims its
type.
-/

namespace Funnel

open Time

/-- Something a user did. -/
structure Event where
  user : String
  session : String
  eventType : String
  occurredAt : Instant
  dimensions : Dimensions
deriving DecidableEq

abbrev TextSet := NameMap Unit

/-- The set of the texts of a list. -/
def TextSet.ofTexts (texts : List String) : TextSet :=
  NameMap.ofList (texts.map (·, ()))

/-- A step of a funnel and the event types it claims. -/
structure Step where
  rank : UInt32
  name : String
  eventTypes : TextSet
deriving DecidableEq

namespace Step

def claims (step : Step) (eventType : String) : Bool :=
  (step.eventTypes.get? eventType).isSome

/-- The step an event type belongs to: of those that claim it the one of lowest rank, and of equal
ranks the first. -/
def resolve? (steps : List Step) (eventType : String) : Option Step :=
  (sortOn Step.rank steps).find? fun step => step.claims eventType

/-- The highest rank, zero without steps. -/
def maxRank (steps : List Step) : UInt32 :=
  steps.foldl (fun rank step => max rank step.rank) 0

end Step

/-- An event with its step. An event of no step has no rank and is named after its type. -/
structure ClassifiedEvent where
  user : String
  session : String
  eventType : String
  stepName : String
  stepRank : Option UInt32
  occurredAt : Instant
  dimensions : Dimensions
deriving DecidableEq

/-- The event as one of a step, or of none. -/
def Event.classified (event : Event) (step : Option Step) : ClassifiedEvent where
  user := event.user
  session := event.session
  eventType := event.eventType
  stepName := (step.map Step.name).getD event.eventType
  stepRank := step.map Step.rank
  occurredAt := event.occurredAt
  dimensions := event.dimensions

/-- Every event with the step its type belongs to. -/
def classify (steps : List Step) (events : List Event) : List ClassifiedEvent :=
  let ordered := sortOn Step.rank steps
  events.map fun event => event.classified (ordered.find? fun step => step.claims event.eventType)

theorem classify_eq (steps : List Step) (events : List Event) :
    classify steps events =
      events.map fun event => event.classified (Step.resolve? steps event.eventType) := rfl

/-- How the events of a run spread over the steps. -/
structure Coverage where
  matched : List (UInt32 × Nat)
  unmapped : List (String × Nat)
deriving DecidableEq

namespace Coverage

/-- The number of events of each rank, in order of rank, and of each type that no step claims, in
order of type. -/
def ofEvents (steps : List Step) (events : List ClassifiedEvent) : Coverage where
  matched := (distinct (steps.map Step.rank)).map fun rank =>
    (rank, events.countP fun event => event.stepRank == some rank)
  unmapped := (groupBy ClassifiedEvent.eventType (events.filter (·.stepRank.isNone))).map
    fun group => (group.1, group.2.length)

def emptyRanks (coverage : Coverage) : List UInt32 :=
  (coverage.matched.filter fun count => count.2 == 0).map Prod.fst

/-- The number of events that belong to a step. -/
def matchedCount (coverage : Coverage) : Nat :=
  total (coverage.matched.map Prod.snd)

end Coverage

end Funnel
