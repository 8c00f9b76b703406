import Funnel.Entry.Basic

/-!
# Skipped steps

A session that reached a step without passing a lower one is taken to have passed the lower one at
the same moment: an entry for it is added, so that reaching a rank implies all ranks below.
-/

namespace Funnel

/-- The ranks of some steps in ascending order, each with the name of its last step. -/
def Step.namesByRank (steps : List Step) : List (UInt32 × String) :=
  (groupBy Step.rank steps).filterMap fun group =>
    group.2.getLast?.map fun step => (group.1, step.name)

namespace Entry

/-- Of the entries above a rank the earliest, and of those at the same time the lowest. -/
def anchor? (session : List Entry) (rank : UInt32) : Option Entry :=
  firstMinOn? (fun entry => (entry.enteredAt, entry.stepRank))
    (session.filter fun entry => rank < entry.stepRank)

/-- The entries of the steps that a session skipped below its highest rank. -/
def skipped (steps : List Step) (session : List Entry) : List Entry :=
  (Step.namesByRank steps).filterMap fun (rank, name) =>
    if 1 ≤ rank ∧ !session.any (·.stepRank == rank) then
      (anchor? session rank).map fun anchor =>
        { user := anchor.user
          session := anchor.session
          stepName := name
          stepRank := rank
          enteredAt := anchor.enteredAt
          dimensions := anchor.dimensions
          backfilled := true }
    else none

/-- The entries that a list of entries lacks, session by session. -/
def missing (steps : List Step) (entries : List Entry) : List Entry :=
  (bySession entries).flatMap fun group => skipped steps group.2

/-- A list of entries followed by those it lacks. -/
def backfill (steps : List Step) (entries : List Entry) : List Entry :=
  entries ++ missing steps entries

end Entry

end Funnel
