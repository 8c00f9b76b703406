import Funnel.Config.Json
import Funnel.Text.File

namespace Funnel

/-- What a step has to have besides its rank. -/
inductive StepPart
  | name
  | eventTypes
deriving DecidableEq, Repr

def StepPart.text : StepPart → String
  | name => "name"
  | eventTypes => "matching event types"

/-- Why there is no usable configuration. -/
inductive ConfigError
  | unreadable (error : Text.FileError)
  | misread (error : Json.ReadError)
  | noSteps
  | duplicateRank (rank : UInt32)
  | rankGap (missing maxRank : UInt32)
  | incompleteStep (rank : UInt32) (part : StepPart)
  | missingBinding (field : String)
  | invalidIdentifier (field value : String)
  | duplicateDimension (name : String)
  | periodNotPositive (days : Int64)
  | blankFilter
  | lookupWithoutDimensions

namespace ConfigError

/-- A value that its field cannot have, in words. -/
def invalidValue (field reason : String) : String :=
  "Invalid config value for " ++ field ++ ": " ++ reason

/-- A text that is no configuration for some reason, in words. -/
def misreadText (reason : String) : String :=
  "Failed to parse config JSON: " ++ reason

def message : ConfigError → String
  | unreadable error => "Failed to read config file: " ++ error.message
  | misread error => misreadText error.message
  | noSteps => "Funnel must define at least one step"
  | duplicateRank rank => "Step rank " ++ toString rank.toNat ++ " is defined more than once"
  | rankGap missing maxRank =>
    "Step ranks must be contiguous from 1 to " ++ toString maxRank.toNat ++ "; missing rank " ++
      toString missing.toNat
  | incompleteStep rank part => "Step rank " ++ toString rank.toNat ++ " has no " ++ part.text
  | missingBinding field => "Missing required binding: " ++ field
  | invalidIdentifier field value =>
    "Invalid SQL identifier for " ++ field ++ ": " ++ Text.quoted value
  | duplicateDimension name => "Dimension " ++ Text.quoted name ++ " is declared more than once"
  | periodNotPositive days =>
    invalidValue "time_period_days" ("must be positive, got " ++ toString days.toInt)
  | blankFilter => invalidValue "filters" "filter predicates must not be empty"
  | lookupWithoutDimensions =>
    invalidValue "dimension_lookup" "a lookup source needs at least one declared dimension"

end ConfigError

/-- The configuration in a file, once the file has been read or not. -/
def Config.load (file : Except Text.FileError String) : Except ConfigError Config := do
  let s ← file.mapError .unreadable
  (Config.ofText s).mapError .misread

end Funnel
