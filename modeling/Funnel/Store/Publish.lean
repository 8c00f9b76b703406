import Funnel.Plan.Run
import Funnel.Program

/-!
# Publishing

The results of a run replace those of the run before. Both relations are emptied and filled within
one transaction.
-/

namespace Funnel.Store

def rowsPerInsertion : Nat := 1000

/-- The statements that replace both relations: create what is not there, delete what is, and
insert the results. -/
def publication (destination : Destination) (stamp : Stamp) (output : RunOutput) :
    List Statement :=
  let funnelTable := destination.funnelTable
  let metricsTable := destination.metricsTable
  [.createSchema destination.schema, .createFunnelTable funnelTable,
    .createMetricsTable metricsTable, .deleteAll funnelTable, .deleteAll metricsTable] ++
    (chunks rowsPerInsertion output.entries).map (.insertEntries funnelTable stamp) ++
    (chunks rowsPerInsertion output.metrics).map (.insertMetrics metricsTable stamp)

def publish (destination : Destination) (stamp : Stamp) (output : RunOutput) : Action Unit := do
  Action.execute .begin (Action.refusalOf "failed to open publish transaction")
  (publication destination stamp output).forM fun statement => do
    discard (Action.execute statement)
  Action.execute .commit (Action.refusalOf "failed to commit funnel outputs")

end Funnel.Store
