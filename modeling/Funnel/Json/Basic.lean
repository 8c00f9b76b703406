import Funnel.Number.Shortest
import Funnel.NameMap
import Funnel.Text.Quoted

namespace Funnel

/-- A JSON value. Numbers written without fraction or exponent are integers as far as 64 bits
reach, all others floats. -/
inductive Json
  | null
  | bool (b : Bool)
  | integer (n : Int)
  | float (x : Float)
  | string (s : String)
  | array (items : List Json)
  | object (members : List (String × Json))

namespace Json

/-- The value of the last member of a name. -/
def last? (name : String) (members : List (String × Json)) : Option Json :=
  (members.findRev? fun member => member.1 == name).map Prod.snd

/-- The member of an object by name; other values have none. -/
def get? (name : String) : Json → Option Json
  | object members => last? name members
  | _ => none

def textOrNull : Option String → Json
  | none => null
  | some s => string s

def ofTexts (texts : List String) : Json :=
  array (texts.map string)

/-- A character in a JSON text: quote, backslash and control characters are escaped. -/
def escapeChar (c : Char) : String :=
  if c = '"' then "\\\""
  else if c = '\\' then "\\\\"
  else if c = '\x08' then "\\b"
  else if c = '\t' then "\\t"
  else if c = '\n' then "\\n"
  else if c = '\x0c' then "\\f"
  else if c = '\r' then "\\r"
  else if c.toNat < 32 then
    "\\u" ++ String.ofList ((Text.hex c.toNat).toList.leftpad 4 '0')
  else c.toString

def stringText (s : String) : String :=
  "\"" ++ String.join (s.toList.map escapeChar) ++ "\""

mutual

/-- The text of a value without blanks. An object lists its members in order of name, and of
several members of one name only the last. -/
def compact : Json → String
  | null => "null"
  | bool b => if b then "true" else "false"
  | integer n => toString n
  | float x => Number.shortest x
  | string s => stringText s
  | array items => "[" ++ ",".intercalate (compactItems items) ++ "]"
  | object members =>
    let entries := (NameMap.ofList (compactMembers members)).entries
    "\x7b" ++ ",".intercalate (entries.map fun entry => stringText entry.1 ++ ":" ++ entry.2) ++
      "\x7d"

def compactItems : List Json → List String
  | [] => []
  | item :: rest => compact item :: compactItems rest

/-- The names of an object's members with the texts of their values. -/
def compactMembers : List (String × Json) → List (String × String)
  | [] => []
  | (name, value) :: rest => (name, compact value) :: compactMembers rest

end

end Json

end Funnel
