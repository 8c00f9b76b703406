import Funnel.Proofs.Program
import Funnel.Store.Publish

namespace Funnel

theorem Destination.funnelTable_ne_metricsTable (destination : Destination) :
    destination.funnelTable ≠ destination.metricsTable := by
  intro h
  have hsuffix := (String.append_right_inj _).1 h
  revert hsuffix
  decide

namespace Store

/-- The rows that a statement inserts into a published relation. -/
def Statement.rowsInto (table : String) (statement : Statement) : List (List Param) :=
  match statement with
  | insertEntries target .. | insertMetrics target .. =>
    if target = table then statement.rows.getD [] else []
  | _ => []

/-- The rows that were inserted into a published relation in the course of some exchanges. -/
def insertedInto (table : String) (exchanges : List Exchange) : List (List Param) :=
  exchanges.flatMap fun exchange =>
    match exchange with
    | ⟨.execute statement, .ok _⟩ => statement.rowsInto table
    | _ => []

theorem insertedInto_of_accepts {table : String} {exchanges : List Exchange}
    {statements : List Statement} (h : List.Forall₂ Exchange.Accepts exchanges statements) :
    insertedInto table exchanges = statements.flatMap (Statement.rowsInto table) := by
  induction h with
  | nil => rfl
  | cons haccepts _ ih =>
    obtain ⟨answer, rfl⟩ := haccepts
    rw [List.flatMap_cons, ← ih]
    rfl

variable {destination : Destination} {stamp : Stamp} {output : RunOutput}
  {exchanges : List Exchange}

/-- The rows of the metrics are inserted in order. -/
theorem rowsInto_metricsTable_publication (destination : Destination) (stamp : Stamp)
    (output : RunOutput) :
    (publication destination stamp output).flatMap
        (Statement.rowsInto destination.metricsTable) =
      output.metrics.map fun metric =>
        metricRowParams stamp.runId (MetricRow.ofMetric stamp.runAt metric) := by
  let row := fun metric => metricRowParams stamp.runId (MetricRow.ofMetric stamp.runAt metric)
  have hentries : ∀ entries, Statement.rowsInto destination.metricsTable
      (.insertEntries destination.funnelTable stamp entries) = [] :=
    fun entries => if_neg destination.funnelTable_ne_metricsTable
  have hmetrics : ∀ metrics, Statement.rowsInto destination.metricsTable
      (.insertMetrics destination.metricsTable stamp metrics) = metrics.map row :=
    fun metrics => if_pos rfl
  have hchunks : (chunks rowsPerInsertion output.metrics).flatMap (List.map row) =
      output.metrics.map row := by
    rw [List.flatMap_def, ← List.map_flatten, flatten_chunks]
  unfold publication
  rw [List.flatMap_append, List.flatMap_append, List.flatMap_map, List.flatMap_map]
  simp only [hentries, hmetrics, List.flatMap_eq_nil_iff.2 fun _ _ => rfl]
  exact hchunks

/-- A publication succeeds if the store accepts the start of the transaction, all statements of the
publication and the end of the transaction. -/
theorem yields_publish_iff :
    (publish destination stamp output).run.Yields exchanges (.ok ()) ↔
      List.Forall₂ Exchange.Accepts exchanges
        (.begin :: publication destination stamp output ++ [.commit]) := by
  refine Action.yields_bind_iff.trans ?_
  constructor
  · rintro ⟨_, rest, _, rfl, hbegin, hrest⟩
    obtain ⟨inserted, _, _, rfl, hinserted, hcommit⟩ := Action.yields_bind_iff.1 hrest
    obtain rfl := Action.yields_execute_iff.1 hbegin
    obtain rfl := Action.yields_execute_iff.1 hcommit
    have hcommit : List.Forall₂ Exchange.Accepts [⟨.execute .commit, .ok ()⟩] [.commit] :=
      .cons ⟨(), rfl⟩ .nil
    have hinserted := Action.yields_forM_execute_iff.1 hinserted
    exact .cons ⟨_, rfl⟩ (List.rel_append hinserted hcommit)
  · intro h
    obtain ⟨_, rest, ⟨_, rfl⟩, hrest, rfl⟩ := List.forall₂_cons_right_iff.1 h
    -- the exchanges behind the first are cut where the publication ends
    have hinserted := List.forall₂_take_append rest (publication destination stamp output) _ hrest
    have hcommit := List.forall₂_drop_append rest (publication destination stamp output) _ hrest
    rw [← List.take_append_drop (publication destination stamp output).length rest]
    refine ⟨[_], _, (), rfl, Action.yields_execute_iff.2 rfl, ?_⟩
    refine Action.yields_bind_iff.2 ⟨_, _, (), rfl, ?_, ?_⟩
    · exact Action.yields_forM_execute_iff.2 hinserted
    · obtain ⟨_, _, ⟨_, rfl⟩, hnil, heq⟩ := List.forall₂_cons_right_iff.1 hcommit
      obtain rfl := List.forall₂_nil_right_iff.1 hnil
      rw [heq]
      exact Action.yields_execute_iff.2 rfl

theorem Statement.nonempty_answer (statement : Statement) : Nonempty statement.Answer := by
  cases statement with
  | insertEvent event => exact ⟨(0 : Nat)⟩
  | selectEvents source filters since => exact ⟨([] : List EventRow)⟩
  | selectAttributes lookup dimensions => exact ⟨([] : List AttributeRow)⟩
  | selectMetrics table => exact ⟨([] : List MetricRow)⟩
  | _ => exact ⟨()⟩

/-- A store that accepts everything lets every publication succeed. -/
theorem exists_yields_publish (destination : Destination) (stamp : Stamp) (output : RunOutput) :
    ∃ exchanges, (publish destination stamp output).run.Yields exchanges (.ok ()) := by
  have haccepted : ∀ statements, ∃ exchanges,
      List.Forall₂ Exchange.Accepts exchanges statements := by
    intro statements
    induction statements with
    | nil => exact ⟨[], .nil⟩
    | cons statement statements ih =>
      obtain ⟨exchanges, hexchanges⟩ := ih
      obtain ⟨answer⟩ := statement.nonempty_answer
      exact ⟨_ :: exchanges, .cons ⟨answer, rfl⟩ hexchanges⟩
  obtain ⟨exchanges, hexchanges⟩ := haccepted _
  exact ⟨exchanges, yields_publish_iff.2 hexchanges⟩

theorem insertedInto_metricsTable_of_publish
    (h : (publish destination stamp output).run.Yields exchanges (.ok ())) :
    insertedInto destination.metricsTable exchanges =
      output.metrics.map fun metric =>
        metricRowParams stamp.runId (MetricRow.ofMetric stamp.runAt metric) := by
  rw [insertedInto_of_accepts (yields_publish_iff.1 h), List.flatMap_append,
    List.flatMap_cons, rowsInto_metricsTable_publication]
  exact List.append_nil _

end Store

end Funnel
