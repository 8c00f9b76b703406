import Funnel.NameMap

namespace Funnel

/-- A map from dimension names to values; `none` is unset. -/
abbrev Dimensions := NameMap (Option String)

namespace Dimensions

/-- The value of a name; names outside the map are unset. -/
def value (d : Dimensions) (name : String) : Option String :=
  (d.get? name).join

/-- The map over some names whose values are given by a function. -/
def ofNames (names : List String) (value : String → Option String) : Dimensions :=
  NameMap.ofList (names.map fun name => (name, value name))

/-- The map that leaves all of some names unset. -/
def unset (names : List String) : Dimensions :=
  ofNames names fun _ => none

/-- The values of some names only; names outside the map are added unset. -/
def restrict (d : Dimensions) (names : List String) : Dimensions :=
  ofNames names d.value

/-- The map with the values of another one where it has none itself. -/
def fill (d other : Dimensions) : Dimensions :=
  d.map fun name value => value.or (Dimensions.value other name)

/-- The map as a heading: `name=value` for each name in order, `(none)` for an unset one. -/
def label (d : Dimensions) : String :=
  if d.isEmpty then "all users"
  else ", ".intercalate (d.entries.map fun entry => entry.1 ++ "=" ++ entry.2.getD "(none)")

end Dimensions

end Funnel
