import Funnel.Grouping
import Funnel.Json.Shape

/-!
# What is wrong with a JSON text, and where

A text fails by being no JSON or by holding a value of another shape. A reader knows how much text
is left at the point where it stops; line and column, in bytes, are counted once, when the whole
text is at hand.
-/

namespace Funnel.Json

/-- What makes a text no JSON. -/
inductive Fault
  | endInArray
  | endInObject
  | endInString
  | endInValue
  | noColon
  | noItemEnd
  | noMemberEnd
  | noWord
  | noValue
  | noKey
  | badEscape
  | badNumeral
  | outsideRange
  | controlCharacter
  | unpairedSurrogate
  | unfinishedPair
  | trailingComma
  | trailingText
  | tooDeep
deriving DecidableEq, Repr

namespace Fault

def isEnd : Fault → Bool
  | endInArray | endInObject | endInString | endInValue => true
  | _ => false

def message : Fault → String
  | endInArray => "EOF while parsing a list"
  | endInObject => "EOF while parsing an object"
  | endInString => "EOF while parsing a string"
  | endInValue => "EOF while parsing a value"
  | noColon => "expected `:`"
  | noItemEnd => "expected `,` or `]`"
  | noMemberEnd => "expected `,` or `\x7d`"
  | noWord => "expected ident"
  | noValue => "expected value"
  | noKey => "key must be a string"
  | badEscape => "invalid escape"
  | badNumeral => "invalid number"
  | outsideRange => "number out of range"
  | controlCharacter => "control character (\\u0000-\\u001F) found while parsing a string"
  | unpairedSurrogate => "lone leading surrogate in hex escape"
  | unfinishedPair => "unexpected end of hex escape"
  | trailingComma => "trailing comma"
  | trailingText => "trailing characters"
  | tooDeep => "recursion limit exceeded"

end Fault

/-- What is wrong with a text that should hold a value. -/
inductive Cause
  | fault (fault : Fault)
  | shape (error : ShapeError)

def Cause.message : Cause → String
  | fault f => f.message
  | shape error => error.message

/-- A point of a text: some bytes into what is left of it, never beyond its end. -/
structure Mark where
  rest : List Char
  ahead : Nat

/-- A point of a text: its line, and the number of bytes before it in the line. -/
structure Place where
  line : Nat
  column : Nat
deriving DecidableEq, Repr

/-- The bytes that a text takes. -/
def size (cs : List Char) : Nat :=
  total (cs.map Char.utf8Size)

/-- The place that lies some bytes further on in a text. -/
def Place.advance (place : Place) : List Char → Nat → Place
  | [], _ => place
  | c :: cs, n =>
    if n < c.utf8Size then { place with column := place.column + n }
    else if c = '\n' then Place.advance ⟨place.line + 1, 0⟩ cs (n - 1)
    else Place.advance { place with column := place.column + c.utf8Size } cs (n - c.utf8Size)

/-- The place of a mark in the whole text. -/
def Mark.place (whole : List Char) (mark : Mark) : Place :=
  Place.advance ⟨1, 0⟩ whole (min (size whole) (size whole - size mark.rest + mark.ahead))

/-- What is wrong, and at which mark. -/
structure Flaw where
  cause : Cause
  mark : Mark

/-- A fault in front of what is left of a text. -/
def Fault.before (fault : Fault) (rest : List Char) : Flaw :=
  ⟨.fault fault, ⟨rest, 0⟩⟩

/-- A fault in the first byte of what is left of a text. -/
def Fault.upon (fault : Fault) (rest : List Char) : Flaw :=
  ⟨.fault fault, ⟨rest, 1⟩⟩

/-- A wrong shape that shows when some text is left. -/
def ShapeError.before (error : ShapeError) (rest : List Char) : Flaw :=
  ⟨.shape error, ⟨rest, 0⟩⟩

/-- What is wrong, and at which place. -/
structure ReadError where
  cause : Cause
  place : Place

def Flaw.located (whole : List Char) (flaw : Flaw) : ReadError :=
  ⟨flaw.cause, flaw.mark.place whole⟩

def ReadError.message (error : ReadError) : String :=
  error.cause.message ++ " at line " ++ toString error.place.line ++ " column " ++
    toString error.place.column

end Funnel.Json
