import Funnel.Config.Error
import Funnel.Sql.Identifier
import Funnel.Text.Blank

/-!
# Validating configurations

A configuration is usable if all of its names can stand in SQL texts, its steps have the ranks from
one upwards without gap, nothing that has to say something is blank, and the period, if any, is
positive.
-/

namespace Funnel

/-- A name of the configuration that is put into SQL texts, and where it stands. -/
structure Binding where
  field : String
  value : String
  mayBeQualified : Bool := true

/-- A name has to be there and to be an identifier. -/
def Binding.check (binding : Binding) : Except ConfigError Unit :=
  if Text.isBlank binding.value then .error (.missingBinding binding.field)
  else if if binding.mayBeQualified then Sql.isIdentifier binding.value
      else Sql.isUnqualified binding.value then .ok ()
  else .error (.invalidIdentifier binding.field binding.value)

/-- A name that may be absent. -/
def Binding.ofOption (field : String) (value : Option String) : List Binding :=
  value.toList.map fun value => { field, value }

def Source.bindings (source : Source) : List Binding :=
  [{ field := "source.table", value := source.table },
    { field := "source.user_id_column", value := source.userColumn },
    { field := "source.event_column", value := source.eventColumn },
    { field := "source.timestamp_column", value := source.timeColumn }] ++
    Binding.ofOption "source.session_id_column" source.sessionColumn ++
    Binding.ofOption "source.properties_column" source.propertiesColumn

/-- The names of a destination. What relations are named after has no schema of its own. -/
def Destination.bindings (destination : Destination) : List Binding :=
  [{ field := "destination.schema", value := destination.schema },
    { field := "destination.prefix", value := destination.stem, mayBeQualified := false }]

def Lookup.bindings (lookup : Lookup) : List Binding :=
  [{ field := "dimension_lookup.table", value := lookup.table },
    { field := "dimension_lookup.user_id_column", value := lookup.userColumn },
    { field := "dimension_lookup.observed_at_column", value := lookup.timeColumn }] ++
    Binding.ofOption "dimension_lookup.session_id_column" lookup.sessionColumn ++
    Binding.ofOption "dimension_lookup.attributes_column" lookup.attributesColumn

namespace Config

/-- The names of a configuration other than its dimensions. -/
def bindings (config : Config) : List Binding :=
  config.source.bindings ++ config.destination.bindings ++
    config.lookup.toList.flatMap Lookup.bindings

/-- A step has a rank above zero that no step before it has, a name, and event types, none of them
blank. -/
def checkStep (config : Config) (before : List UInt32) (step : Step) :
    Except ConfigError Unit :=
  if step.rank = 0 then .error (.rankGap 1 config.maxRank)
  else if step.rank ∈ before then .error (.duplicateRank step.rank)
  else if Text.isBlank step.name then .error (.incompleteStep step.rank .name)
  else if step.eventTypes.isEmpty ∨ step.eventTypes.names.any Text.isBlank then
    .error (.incompleteStep step.rank .eventTypes)
  else .ok ()

/-- Checks one step after the other; `before` are the ranks already seen. -/
def checkEachStep (config : Config) (before : List UInt32) : List Step → Except ConfigError Unit
  | [] => .ok ()
  | step :: steps => do
    config.checkStep before step
    config.checkEachStep (step.rank :: before) steps

/-- The least rank from one upwards that is missing among as many ranks. Distinct ranks above zero
leave a gap only if one of these is missing. -/
def missingRank? (ranks : List UInt32) : Option UInt32 :=
  ((List.range' 1 ranks.length).find? fun n => !ranks.any fun rank => rank.toNat == n).map
    UInt32.ofNat

/-- There is a step, every step is complete, and the ranks have no gap. -/
def checkSteps (config : Config) : Except ConfigError Unit := do
  if config.steps.isEmpty then throw .noSteps
  config.checkEachStep [] config.steps
  match missingRank? (config.steps.map Step.rank) with
  | some missing => throw (.rankGap missing config.maxRank)
  | none => return ()

/-- Dimensions are different identifiers without a schema; `before` are those already seen. -/
def checkDimensionNames (before : List String) : List String → Except ConfigError Unit
  | [] => .ok ()
  | name :: names => do
    unless Sql.isUnqualified name do throw (.invalidIdentifier "dimensions" name)
    if name ∈ before then throw (.duplicateDimension name)
    checkDimensionNames (name :: before) names

def checkDimensions (config : Config) : Except ConfigError Unit := do
  checkDimensionNames [] config.dimensions
  if config.lookup.isSome ∧ config.dimensions.isEmpty then throw .lookupWithoutDimensions

def checkPeriod (config : Config) : Except ConfigError Unit :=
  match config.periodDays with
  | some days => if days ≤ 0 then .error (.periodNotPositive days) else .ok ()
  | none => .ok ()

def checkFilters (config : Config) : Except ConfigError Unit :=
  if config.filters.any Text.isBlank then .error .blankFilter else .ok ()

/-- The first thing wrong with a configuration: its name, the names put into SQL texts, the steps,
the dimensions, the period, the filters. -/
def check (config : Config) : Except ConfigError Unit := do
  if Text.isBlank config.funnelName then throw (.missingBinding "funnel_name")
  config.bindings.forM Binding.check
  config.checkSteps
  config.checkDimensions
  config.checkPeriod
  config.checkFilters

end Config

/-- An event type that several steps claim: the lowest rank wins, the others never see it. -/
structure Ambiguity where
  eventType : String
  winner : UInt32
  shadowed : List UInt32
deriving DecidableEq, Repr

def Ambiguity.text (ambiguity : Ambiguity) : String :=
  let winner := toString ambiguity.winner.toNat
  let shadowed := ", ".intercalate (ambiguity.shadowed.map fun rank => toString rank.toNat)
  "event type " ++ Text.quoted ambiguity.eventType ++ " is claimed by ranks " ++ winner ++
    " and [" ++ shadowed ++ "]; rank " ++ winner ++ " wins"

namespace Config

/-- The event types that steps claim, each with the ranks of those that do, both in order. -/
def claims (config : Config) : List (String × List UInt32) :=
  (groupBy Prod.fst (config.steps.flatMap fun step =>
    step.eventTypes.names.map fun eventType => (eventType, step.rank))).map
    fun (eventType, claims) => (eventType, sortOn id (claims.map Prod.snd))

/-- The event types that several steps claim, in order. -/
def ambiguities (config : Config) : List Ambiguity :=
  config.claims.filterMap fun
    | (eventType, winner :: loser :: others) =>
      some { eventType, winner, shadowed := loser :: others }
    | _ => none

/-- The warnings about a usable configuration, or what is wrong with an unusable one. -/
def validate (config : Config) : Except ConfigError (List Ambiguity) := do
  config.check
  return config.ambiguities

end Config

end Funnel
