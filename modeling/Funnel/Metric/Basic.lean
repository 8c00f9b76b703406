import Funnel.Dimensions.Basic

namespace Funnel

/-- What a metric row is about: a single step, or the funnel from end to end. -/
inductive Level
  | stage
  | endToEnd
deriving DecidableEq, Repr

namespace Level

/-- The name of a level in the published relation. -/
def name : Level → String
  | stage => "stage"
  | endToEnd => "e2e"

def ofName? (s : String) : Option Level :=
  if s = "stage" then some stage
  else if s = "e2e" then some endToEnd
  else none

theorem ofName?_eq_some_iff {s : String} {level : Level} :
    ofName? s = some level ↔ s = level.name := by
  unfold ofName?
  constructor
  · intro h
    split at h
    · rename_i hs
      cases h
      exact hs
    · split at h
      · rename_i hs
        cases h
        exact hs
      · cases h
  · rintro rfl
    cases level <;> simp [name]

/-- Rows of steps come before the row of the whole funnel. -/
def place : Level → Nat
  | stage => 0
  | endToEnd => 1

end Level

/-- A row of the metrics relation. A row about a step has the step's rank and name. -/
structure Metric where
  level : Level
  stepRank : Option UInt32
  stepName : Option String
  dimensions : Dimensions
  starters : Nat
  completers : Nat
  dropoffs : Nat
  conversionRate : Option Float
  dropoffRate : Option Float
  secondsToReach : Option Float
  secondsToConvert : Option Float
  sessionsToReach : Option Float
  sessionsToConvert : Option Float

/-- The key by which metric rows are ordered: dimension map, level, rank. -/
def Metric.position (metric : Metric) : Dimensions × Nat × Option UInt32 :=
  (metric.dimensions, metric.level.place, metric.stepRank)

/-- A share in percent; there is no share of nothing. -/
def ratePct (part whole : Nat) : Option Float :=
  if whole = 0 then none else some (100.0 * Float.ofNat part / Float.ofNat whole)

/-- The mean of a list, summed from the left; there is no mean of nothing. -/
def mean (xs : List Float) : Option Float :=
  if xs.isEmpty then none
  else some (xs.foldl (fun sum x => sum + x) 0.0 / Float.ofNat xs.length)

end Funnel
