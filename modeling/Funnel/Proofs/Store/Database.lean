import Funnel.Proofs.Grouping
import Funnel.Proofs.Store.Publish
import Funnel.Proofs.Store.Record
import Mathlib.Logic.Function.Basic

/-!
# What a publication makes of a database

A database creates schemas and tables that are not there, empties tables and appends rows, each
value under the name of its column, and shows what a transaction did when that ends. So interpreted,
a publication replaces both relations as a whole.
-/

namespace Funnel.Store

/-- The schemas and tables of a database. A table that is there has a list of rows. -/
structure Tables where
  schemas : List String
  rows : String → Option (List NamedRow)

/-- The number of values that the text of one statement can refer to. -/
def maxParams : Nat := 65535

namespace Tables

variable (tables : Tables)

/-- The schema that the name of a table begins with is there. -/
def hasSchemaOf (table : String) : Bool :=
  tables.schemas.any fun schema => (schema.toList ++ ['.']).isPrefixOf table.toList

/-- Tables with other rows in one of them, which may be a new one. -/
def setRows (table : String) (rows : List NamedRow) : Tables :=
  { tables with rows := Function.update tables.rows table (some rows) }

def createSchema (schema : String) : Tables :=
  if schema ∈ tables.schemas then tables else { tables with schemas := schema :: tables.schemas }

/-- Creates a table in a schema that is there, unless the table is there as well. -/
def create? (table : String) : Option Tables :=
  if tables.hasSchemaOf table then
    some (if (tables.rows table).isSome then tables else tables.setRows table [])
  else none

/-- Deletes all rows of a table that is there. -/
def deleteAll? (table : String) : Option Tables :=
  (tables.rows table).map fun _ => tables.setRows table []

/-- Appends rows to a table that is there: one at least, each with a value for every column that is
named, and not more than a statement can have values for. -/
def insert? (table : String) (columns : List ColumnDefinition) (rows : List (List Param)) :
    Option Tables :=
  if rows.isEmpty ∨ maxParams < rows.flatten.length ∨
      (∃ row ∈ rows, row.length ≠ columns.length) then none
  else (tables.rows table).map fun old =>
    tables.setRows table (old ++ rows.map (columns.map Prod.fst).zip)

/-- What a statement makes of tables, if it is accepted. Only what publications consist of is
accepted here. -/
def apply : Statement → Option Tables
  | .createSchema schema => some (tables.createSchema schema)
  | .createFunnelTable table | .createMetricsTable table => tables.create? table
  | .deleteAll table => tables.deleteAll? table
  | statement@(.insertEntries table ..) =>
    statement.rows.bind (tables.insert? table entryColumns)
  | statement@(.insertMetrics table ..) =>
    statement.rows.bind (tables.insert? table metricColumns)
  | _ => none

variable {tables}

end Tables

section Publication

variable (destination : Destination) (stamp : Stamp) (output : RunOutput)

/-- Tables that hold the results of a run and nothing else in the two relations of a destination,
and that are otherwise what they were before. -/
structure Tables.Holds (after before : Tables) (destination : Destination) (stamp : Stamp)
    (output : RunOutput) : Prop where
  entries : after.rows destination.funnelTable = some (output.entries.map (entryCells stamp))
  metrics : after.rows destination.metricsTable = some (output.metrics.map (metricCells stamp))
  /-- Every row begins with the run that published it and its time. -/
  stamped : ∀ table, table = destination.funnelTable ∨ table = destination.metricsTable →
    ∀ rows, after.rows table = some rows →
      ∀ row ∈ rows,
        row.take 2 = [("run_id", .text stamp.runId), ("run_at", .instant stamp.runAt)]
  others : ∀ table, table ≠ destination.funnelTable → table ≠ destination.metricsTable →
    after.rows table = before.rows table

/-- What tables hold tells the entries of the run. -/
theorem Tables.Holds.entries_eq {after before before' : Tables} {destination : Destination}
    {stamp : Stamp} {output output' : RunOutput} (h : after.Holds before destination stamp output)
    (h' : after.Holds before' destination stamp output') : output.entries = output'.entries :=
  (entryCells_injective stamp).list_map (Option.some.inj (h.entries.symm.trans h'.entries))

end Publication

/-- The tables that everybody sees, and those of an open transaction if there is one. -/
structure Database where
  visible : Tables
  pending : Option Tables

namespace Database

/-- A database without an open transaction. -/
def idle (tables : Tables) : Database :=
  { visible := tables, pending := none }

/-- What a statement makes of a database, if it is accepted. Within a transaction only the end of
it changes what everybody sees. -/
def execute (database : Database) : Statement → Option Database
  | .begin =>
    if database.pending.isSome then none
    else some { database with pending := some database.visible }
  | .commit => database.pending.map idle
  | statement =>
    match database.pending with
    | some tables =>
      (tables.apply statement).map fun tables => { database with pending := some tables }
    | none => (database.visible.apply statement).map idle

end Database

/-- A publication with the start and the end of its transaction. -/
def transaction (destination : Destination) (stamp : Stamp) (output : RunOutput) :
    List Statement :=
  .begin :: publication destination stamp output ++ [.commit]

section Transaction

variable (destination : Destination) (stamp : Stamp) (output : RunOutput)

/-- The statements of a transaction are sent in order, up to one that is refused. -/
theorem statementsOf_publish {exchanges : List Exchange} {result : Except Abort Unit}
    (h : (publish destination stamp output).run.Yields exchanges result) :
    statementsOf exchanges <+: transaction destination stamp output := by
  unfold transaction
  rcases Action.yields_bind_result_iff.1 h with
    ⟨_, -, hbegin⟩ | ⟨begun, rest, _, rfl, hbegin, hrest⟩
  · rw [Action.statementsOf_execute hbegin]
    exact ⟨_, rfl⟩
  · rw [statementsOf_append, Action.statementsOf_execute hbegin]
    rcases Action.yields_bind_result_iff.1 hrest with
      ⟨_, -, hinserted⟩ | ⟨inserted, committed, _, rfl, hinserted, hcommit⟩
    · obtain ⟨unsent, hunsent⟩ := Action.statementsOf_forM_execute hinserted
      refine ⟨unsent ++ [.commit], ?_⟩
      rw [List.append_assoc, ← List.append_assoc _ unsent, hunsent]
      rfl
    · have haccepts := Action.yields_forM_execute_iff.1 hinserted
      rw [statementsOf_append, Action.statementsOf_execute hcommit,
        statementsOf_of_accepts haccepts]
      exact ⟨[], List.append_nil _⟩

theorem asksOnly_publish {q : Statement → Prop}
    (h : ∀ statement ∈ transaction destination stamp output, q statement) :
    (publish destination stamp output).run.AsksOnly (Request.ExecutesOnly q) := by
  have hexecute : ∀ statement ∈ transaction destination stamp output,
      (Request.execute statement).ExecutesOnly q :=
    fun statement hmem => Request.executesOnly_execute (h statement hmem)
  refine Action.asksOnly_bind (Action.asksOnly_execute _ (hexecute _ (by simp [transaction])))
    fun _ => ?_
  refine Action.asksOnly_bind (Action.asksOnly_forM_execute fun statement hmem => ?_) fun _ => ?_
  · exact hexecute statement (by simp [transaction, hmem])
  · exact Action.asksOnly_execute _ (hexecute _ (by simp [transaction]))

end Transaction

end Funnel.Store
