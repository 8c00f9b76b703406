import Funnel.Entry.Basic

/-!
# The sequence of a session

Each entry is told the step before it, and whether and when its session went on. These entries are
found in one pass from the end of the session, over a stack of those that an earlier entry may still
go on to.
-/

namespace Funnel

/-- What counts as a session going on from an entry: any later entry, or one of higher rank. -/
inductive ConversionMode
  | anyLaterEvent
  | higherRank
deriving DecidableEq, Repr

def ConversionMode.name : ConversionMode → String
  | anyLaterEvent => "any_later_event"
  | higherRank => "higher_rank"

namespace Entry

/-- What an entry leaves of the stack of the entries ahead of it: those that it can go on to are in
front then. -/
def unhidden (mode : ConversionMode) (entry : Entry) (ahead : List Entry) : List Entry :=
  match mode with
  | .anyLaterEvent => ahead
  | .higherRank => ahead.dropWhile fun other => other.stepRank ≤ entry.stepRank

/-- For each entry of a session in order the one by which the session goes on from it, and the
stack of entries that one in front of them all may go on to. -/
def successors (mode : ConversionMode) : List Entry → List (Option Entry) × List Entry
  | [] => ([], [])
  | entry :: later =>
    let (found, ahead) := successors mode later
    let ahead := unhidden mode entry ahead
    (ahead.head? :: found, entry :: ahead)

/-- An entry with the signals of its place: the entry before it and the one that it went on to. -/
def withSignals (entry : Entry) (previous next : Option Entry) : Entry :=
  { entry with
    previousStep := previous.map stepName
    nextEnteredAt := next.map enteredAt
    converted := next.isSome
    secondsToConvert := next.map fun other => other.enteredAt.secondsSince entry.enteredAt }

/-- The entries of one session in order, with their signals. -/
def sequenceSession (mode : ConversionMode) (session : List Entry) : List Entry :=
  let ordered := sortOn position session
  let previous := none :: ordered.map some
  let next := (successors mode ordered).1
  (ordered.zip (previous.zip next)).map fun (entry, previous, next) =>
    entry.withSignals previous next

/-- The entries of all sessions with their signals, in order of user, session and position. -/
def sequence (mode : ConversionMode) (entries : List Entry) : List Entry :=
  (bySession entries).flatMap fun group => sequenceSession mode group.2

end Entry

end Funnel
