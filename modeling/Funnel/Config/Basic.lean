import Funnel.Entry.Attributes
import Funnel.Entry.Sequence

namespace Funnel

/-- The table of events. Without a session column every user is one session. -/
structure Source where
  table : String
  userColumn : String
  sessionColumn : Option String
  eventColumn : String
  timeColumn : String
  propertiesColumn : Option String
deriving DecidableEq

/-- The table of attributes of sessions and users, and which of several records counts. Without an
attributes column every dimension is a column of its own. -/
structure Lookup where
  table : String
  userColumn : String
  sessionColumn : Option String
  timeColumn : String
  attributesColumn : Option String
  selection : Selection
deriving DecidableEq

/-- Where results are published: a schema, and what the names of both relations start with. -/
structure Destination where
  schema : String
  stem : String
deriving DecidableEq

namespace Destination

def funnelTable (destination : Destination) : String :=
  destination.schema ++ "." ++ destination.stem ++ "_funnel"

def metricsTable (destination : Destination) : String :=
  destination.schema ++ "." ++ destination.stem ++ "_metrics"

end Destination

/-- The configuration of a funnel. A period limits a run to the events of that many days. -/
structure Config where
  funnelName : String
  source : Source
  destination : Destination
  periodDays : Option Int64
  filters : List String
  steps : List Step
  dimensions : List String
  lookup : Option Lookup
  mode : ConversionMode
  backfill : Bool
deriving DecidableEq

namespace Config

def maxRank (config : Config) : UInt32 :=
  Step.maxRank config.steps

/-- The configuration with its steps in order of rank. -/
def ranked (config : Config) : Config :=
  { config with steps := sortOn Step.rank config.steps }

end Config

end Funnel
