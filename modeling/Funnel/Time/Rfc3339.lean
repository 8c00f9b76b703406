import Funnel.Text.Blank
import Funnel.Time.Calendar
import Funnel.Time.Instant

/-!
# Instants as text

Instants are written in UTC and read with more freedom: any offset, blank characters between the
parts, one-digit fields, signed years, and a sixtieth second.
-/

namespace Funnel.Time

def Instant.date (t : Instant) : Date :=
  .ofDays (t.micros / microsPerDay)

/-- The microseconds of an instant since the start of its date. -/
def Instant.microsOfDay (t : Instant) : Nat :=
  (t.micros % microsPerDay).toNat

def Date.text (d : Date) : String :=
  yearText d.year ++ "-" ++ padded 2 d.month ++ "-" ++ padded 2 d.day

/-- The fraction of a second: none for a whole second, three places where they are exact, else
six. -/
def fractionText (micros : Nat) : String :=
  if micros = 0 then ""
  else if micros % 1000 = 0 then "." ++ padded 3 (micros / 1000)
  else "." ++ padded 6 micros

/-- An instant as a timestamp in UTC. -/
def Instant.text (t : Instant) : String :=
  let seconds := t.microsOfDay / 1000000
  t.date.text ++ "T" ++ padded 2 (seconds / 3600) ++ ":" ++ padded 2 (seconds / 60 % 60) ++ ":" ++
    padded 2 (seconds % 60) ++ fractionText (t.microsOfDay % 1000000) ++ "Z"

def Instant.minuteText (t : Instant) : String :=
  let minutes := t.microsOfDay / 60000000
  t.date.text ++ " " ++ padded 2 (minutes / 60) ++ ":" ++ padded 2 (minutes % 60) ++ " UTC"

def digitsValue (digits : List Char) : Nat :=
  digits.foldl (fun n c => 10 * n + (c.toNat - '0'.toNat)) 0

/-- At least one digit and at most `width` of them, and what follows. -/
def digits? (width : Nat) (cs : List Char) : Option (Nat × List Char) :=
  let digits := (cs.takeWhile Char.isDigit).take width
  if digits.isEmpty then none else some (digitsValue digits, cs.drop digits.length)

/-- A field of one or two digits after optional blanks, if it lies between two bounds. -/
def field? (low high : Nat) (cs : List Char) : Option (Nat × List Char) := do
  let (n, rest) ← digits? 2 (Text.trimStart cs)
  if low ≤ n ∧ n ≤ high then some (n, rest) else none

def mark? (c : Char) : List Char → Option (List Char)
  | [] => none
  | d :: rest => if d = c then some rest else none

/-- A year after optional blanks: up to four digits, or any number of them after a sign. -/
def year? (cs : List Char) : Option (Int × List Char) :=
  match Text.trimStart cs with
  | '-' :: rest => (digits? rest.length rest).map fun (n, rest) => (-(n : Int), rest)
  | '+' :: rest => (digits? rest.length rest).map fun (n, rest) => ((n : Int), rest)
  | cs => (digits? 4 cs).map fun (n, rest) => ((n : Int), rest)

/-- The fraction of a second in nanoseconds, if there is one; places after the ninth are
dropped. -/
def nanos? : List Char → Option (Nat × List Char)
  | '.' :: rest => do
    let (_, after) ← digits? rest.length rest
    let places := (rest.takeWhile Char.isDigit).take 9
    some (digitsValue places * Nat.pow 10 (9 - places.length), after)
  | cs => some (0, cs)

def twoDigits? : List Char → Option (Nat × List Char)
  | a :: b :: rest =>
    if a.isDigit && b.isDigit then some (digitsValue [a, b], rest) else none
  | _ => none

/-- An offset from UTC in seconds: `Z` or `UTC` in any case, or a sign, two digits of hours and two
of minutes, with colons and blanks between them or not. A day or more is no offset. -/
def offset? (cs : List Char) : Option (Int × List Char) :=
  if (cs.take 3).map Char.toUpper = ['U', 'T', 'C'] then some (0, cs.drop 3)
  else
    match cs with
    | [] => none
    | c :: rest =>
      if c = 'Z' ∨ c = 'z' then some (0, rest)
      else if c = '+' ∨ c = '-' ∨ c = '\u2212' then do
        let (hours, rest) ← twoDigits? rest
        let (minutes, rest) ← twoDigits? (rest.dropWhile fun d => d = ':' || Text.isBlankChar d)
        if hours < 24 ∧ minutes < 60 then
          let seconds : Int := hours * 3600 + minutes * 60
          some (if c = '+' then seconds else -seconds, rest)
        else none
      else none

/-- A date after which one mark separates the time. -/
def date? (cs : List Char) : Option (Date × List Char) := do
  let (year, rest) ← year? cs
  let rest ← mark? '-' (Text.trimStart rest)
  let (month, rest) ← field? 1 12 rest
  let rest ← mark? '-' (Text.trimStart rest)
  let (day, rest) ← field? 1 31 rest
  let date : Date := ⟨year, month, day⟩
  if date.IsValid then some (date, rest) else none

/-- A time of day in nanoseconds; the sixtieth second of a minute is read as the next minute's
first. -/
def time? (cs : List Char) : Option (Nat × List Char) := do
  let (hour, rest) ← field? 0 23 cs
  let rest ← mark? ':' (Text.trimStart rest)
  let (minute, rest) ← field? 0 59 rest
  let rest ← mark? ':' (Text.trimStart rest)
  let (second, rest) ← field? 0 60 rest
  let (nanos, rest) ← nanos? rest
  some ((hour * 3600 + minute * 60 + second) * 1000000000 + nanos, rest)

def nanosPerDay : Int := 86400000000000

/-- The nanoseconds since 1970-01-01T00:00:00Z that a timestamp stands for: date, a separator that
is `T`, `t` or a space, time and offset, with blanks around it. Both the date as written and the
date in UTC have to lie within the calendar's span. -/
def readNanos? (s : String) : Option Int := do
  let (date, rest) ← date? s.toList
  let rest ← match rest with
    | [] => none
    | c :: rest => if c = 'T' ∨ c = 't' ∨ c = ' ' then some rest else none
  let (time, rest) ← time? rest
  let (offset, rest) ← offset? (Text.trimStart rest)
  let day := date.toDays
  let nanos := day * nanosPerDay + time - offset * 1000000000
  if (Text.trimStart rest).isEmpty ∧ Instant.firstDay ≤ day ∧ day ≤ Instant.lastDay ∧
      Instant.firstDay ≤ nanos / nanosPerDay ∧ nanos / nanosPerDay ≤ Instant.lastDay then
    some nanos
  else none

/-- Microseconds from 1970-01-01T00:00:00Z to the start of the year 2000. -/
def micros2000 : Int := 946684800000000

/-- Nanoseconds cut to whole microseconds, toward the start of the year 2000. -/
def Instant.ofNanos (nanos : Int) : Instant :=
  ⟨micros2000 + (nanos - micros2000 * 1000).tdiv 1000⟩

end Funnel.Time
