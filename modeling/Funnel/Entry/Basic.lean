import Funnel.Event.Basic

/-!
# Entries of the funnel relation

The funnel relation has one entry for every step that a session reached. An entry says when the step
was entered and, once its session has been put in sequence, what came before and after.
-/

namespace Funnel

open Time

/-- A session's entry into a step. The fields from `previousStep` to `secondsToConvert` are signals
of the session's sequence and unset before it is known. -/
structure Entry where
  user : String
  session : String
  stepName : String
  stepRank : UInt32
  enteredAt : Instant
  dimensions : Dimensions
  previousStep : Option String := none
  nextEnteredAt : Option Instant := none
  converted : Bool := false
  secondsToConvert : Option Int := none
  backfilled : Bool := false
deriving DecidableEq

namespace Entry

/-- The session an entry belongs to: sessions of different users are different. -/
def sessionKey (entry : Entry) : String × String :=
  (entry.user, entry.session)

/-- The place of an entry in its session: by time, then by rank, then by name. -/
def position (entry : Entry) : Instant × UInt32 × String :=
  (entry.enteredAt, entry.stepRank, entry.stepName)

/-- The entries of each session, sessions in order of user and session. -/
def bySession (entries : List Entry) : List ((String × String) × List Entry) :=
  groupBy sessionKey entries

end Entry

end Funnel
