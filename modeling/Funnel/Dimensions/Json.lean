import Funnel.Dimensions.Basic
import Funnel.Json.Shape

namespace Funnel.Dimensions

/-- The value that a property gives to a dimension: a text itself, null none, and anything else its
compact JSON text. -/
def valueOfProperty : Json → Option String
  | .null => none
  | .string s => some s
  | other => some other.compact

/-- The values of some names in an event's properties; all unset if the properties are no
object. -/
def ofProperties (properties : Option Json) (names : List String) : Dimensions :=
  ofNames names fun name => (properties.bind (Json.get? name)).bind valueOfProperty

def toJson (d : Dimensions) : Json :=
  .object (d.entries.map fun entry => (entry.1, Json.textOrNull entry.2))

def valueOfJson : Json → Except Json.ShapeError (Option String)
  | .null => .ok none
  | .string s => .ok (some s)
  | other => .error (.wrongType other.found "a string")

/-- The map of a stored form; the first member in order of name that is neither text nor null is an
error. -/
def ofJson : Json → Except Json.ShapeError Dimensions
  | .object members => do
    let entries ← (NameMap.ofList members).entries.mapM fun member =>
      (valueOfJson member.2).map (member.1, ·)
    return NameMap.ofList entries
  | other => .error (.wrongType other.found "a map")

end Funnel.Dimensions
