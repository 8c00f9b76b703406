/-!
# Instants

A point in time, held as whole microseconds since 1970-01-01T00:00:00Z. Instants may lie before
that; the calendar they are read and written in spans the years -262143 to 262142.
-/

namespace Funnel.Time

open Std

/-- A point in time: microseconds since 1970-01-01T00:00:00Z. -/
structure Instant where
  micros : Int
deriving DecidableEq, Repr, Inhabited

namespace Instant

instance : Ord Instant := ⟨compareOn micros⟩

instance : TransOrd Instant := inferInstanceAs (TransCmp (compareOn micros))

instance : LawfulEqOrd Instant where
  eq_of_compare {a b} h := by
    have hmicros : a.micros = b.micros := LawfulEqOrd.eq_of_compare (α := Int) h
    cases a
    cases b
    simp_all

def microsPerSecond : Int := 1000000

def microsPerDay : Int := 86400 * microsPerSecond

/-- Whole seconds from one instant to another; a part of a second is dropped toward zero. -/
def secondsSince (later earlier : Instant) : Int :=
  (later.micros - earlier.micros).tdiv microsPerSecond

/-- The start of the year -262143, in days since 1970-01-01. -/
def firstDay : Int := -96465292

/-- The end of the year 262142, in days since 1970-01-01. -/
def lastDay : Int := 95026236

/-- The instant lies on a day of the calendar's span. -/
def IsRepresentable (t : Instant) : Prop :=
  firstDay * microsPerDay ≤ t.micros ∧ t.micros < (lastDay + 1) * microsPerDay

instance (t : Instant) : Decidable t.IsRepresentable := by
  unfold IsRepresentable
  infer_instance

def daysBefore (t : Instant) (days : Int) : Instant :=
  ⟨t.micros - days * microsPerDay⟩

/-- The instant a number of days earlier, if the calendar reaches that far. -/
def daysBefore? (t : Instant) (days : Int) : Option Instant :=
  if (t.daysBefore days).IsRepresentable then some (t.daysBefore days) else none

theorem compare_eq (a b : Instant) : compare a b = compare a.micros b.micros := rfl

end Instant

end Funnel.Time
