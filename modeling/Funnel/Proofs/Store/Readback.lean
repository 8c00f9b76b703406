import Funnel.Proofs.Plan.Counts
import Funnel.Proofs.Store.Publish
import Funnel.Proofs.Store.Record
import Funnel.Report
import Funnel.Store.Fetch

/-!
# Reading back what was published

The store keeps rows in no order. The metrics of a run are listed in an order in which no two of
them are alike, so that sorting what is answered gives the list that was published.
-/

namespace Funnel

open Time

namespace Store

variable {runAt : Instant} {metrics : List Metric} {rows : List MetricRow}

/-- Rows of ordered metrics are read as these metrics, whatever order the rows are in. -/
theorem readMetrics_of_perm (hordered : Ascending Metric.position metrics)
    (hread : ∀ metric ∈ metrics, (MetricRow.ofMetric runAt metric).toMetric = .ok metric)
    (hrows : rows.Perm (metrics.map (MetricRow.ofMetric runAt))) :
    readMetrics rows = .ok metrics := by
  have hread : List.Forall₂ (fun row metric => MetricRow.toMetric row = .ok metric)
      (metrics.map (MetricRow.ofMetric runAt)) metrics :=
    List.forall₂_map_left_iff.2 (List.forall₂_same.2 hread)
  obtain ⟨found, hfound, hperm⟩ := List.perm_comp_forall₂ hrows hread
  have hsorted : sortOn Metric.position found = metrics := by
    have hpositions : (found.map Metric.position).Nodup :=
      (hperm.map Metric.position).nodup_iff.2 hordered.nodup_map
    exact (ascending_sortOn hpositions).eq_of_perm hordered ((sortOn_perm _ _).trans hperm)
  rw [readMetrics, mapM_eq_ok_iff.2 hfound]
  exact congrArg Except.ok hsorted

/-- Rows of one run all tell its time, and so does the last one of them. -/
theorem runAt_getLast? (hne : metrics ≠ [])
    (hrows : rows.Perm (metrics.map (MetricRow.ofMetric runAt))) :
    rows.getLast?.map MetricRow.runAt = some runAt := by
  have hlength : rows ≠ [] := by
    rintro rfl
    exact hne (List.map_eq_nil_iff.1 hrows.nil_eq.symm)
  obtain ⟨row, hrow⟩ := Option.isSome_iff_exists.1 (List.getLast?_isSome.2 hlength)
  obtain ⟨metric, -, rfl⟩ := List.mem_map.1 (hrows.mem_iff.1 (List.mem_of_getLast? hrow))
  rw [hrow]
  rfl

theorem yields_fetchMetrics (destination : Destination) (h : readMetrics rows = .ok metrics) :
    (fetchMetrics destination).run.Yields
      [⟨.execute (.selectMetrics destination.metricsTable), .ok rows⟩]
      (.ok (rows.getLast?.map MetricRow.runAt, metrics)) := by
  refine Action.yields_bind_iff.2 ⟨[_], [], rows, rfl, Action.yields_execute_iff.2 rfl, ?_⟩
  rw [h]
  exact Action.yields_pure_iff.2 ⟨rfl, rfl⟩

/-- Published metrics are read back unchanged. When a run was published by some exchanges with the
store, and the store then answers with the rows that were inserted into the relation of metrics, in
whatever order, what is fetched are the metrics of the run in their order, and the report on them
is the report on the run. Counts are kept in 64 bits, and no list of events in a memory is as long
as that. -/
theorem yields_fetchMetrics_of_publish (plan : Plan) (events : List Event)
    (records : List AttributeRecord) (output : RunOutput) (destination : Destination)
    (stamp : Stamp) (funnelName : String) (sent : List Exchange) (rows : List MetricRow)
    (hlength : events.length < UInt64.size) (hrun : plan.run events records = .ok output)
    (hpublish : (publish destination stamp output).run.Yields sent (.ok ()))
    (hrows : (rows.map (metricRowParams stamp.runId)).Perm
      (insertedInto destination.metricsTable sent)) :
    ∃ published, (fetchMetrics destination).run.Yields
        [⟨.execute (.selectMetrics destination.metricsTable), .ok rows⟩] (.ok published) ∧
      published.2 = output.metrics ∧
      Report.text funnelName published.1 published.2 =
        Report.text funnelName (some stamp.runAt) output.metrics := by
  obtain ⟨-, rfl⟩ := Plan.run_eq_ok_iff.1 hrun
  let metrics := (plan.output events records).metrics
  -- parameters tell the row they are made of, and so the rows are those of the metrics
  have hrows : rows.Perm (metrics.map (MetricRow.ofMetric stamp.runAt)) := by
    rw [insertedInto_metricsTable_of_publish hpublish] at hrows
    refine (List.map_perm_map_iff (metricRowParams_injective stamp.runId)).1 ?_
    rw [List.map_map]
    exact hrows
  have hordered : Ascending Metric.position metrics :=
    Metric.ascending_aggregate plan.nodup_ranks _ _ _ _
  -- no count is above the number of events, so each of them is read back from 64 bits
  have hread : ∀ metric ∈ metrics,
      (MetricRow.ofMetric stamp.runAt metric).toMetric = .ok metric := by
    intro metric hmetric
    obtain ⟨hstarters, hcompleters, hdropoffs⟩ := Plan.counts_le_length hmetric
    exact MetricRow.toMetric_ofMetric stamp.runAt (hstarters.trans_lt hlength)
      (hcompleters.trans_lt hlength) (hdropoffs.trans_lt hlength)
  have htime := runAt_getLast? (Metric.ofEntries_ne_nil _ _ _) hrows
  refine ⟨_, yields_fetchMetrics destination (readMetrics_of_perm hordered hread hrows), rfl, ?_⟩
  rw [htime]

/-- The metrics of the shop are published and come back in the opposite order. -/
theorem yields_fetchMetrics_checkout :
    let destination := Config.checkout.destination
    let stamp : Stamp := { runId := "first", runAt := ⟨50⟩ }
    ∃ output sent, Plan.checkoutEvents.length < UInt64.size ∧
      Plan.checkout.run Plan.checkoutEvents [] = .ok output ∧
      (publish destination stamp output).run.Yields sent (.ok ()) ∧
      let rows := output.metrics.reverse.map (MetricRow.ofMetric stamp.runAt)
      (rows.map (metricRowParams stamp.runId)).Perm
          (insertedInto destination.metricsTable sent) ∧
        ∃ published, (fetchMetrics destination).run.Yields
            [⟨.execute (.selectMetrics destination.metricsTable), .ok rows⟩] (.ok published) ∧
          published.2 = output.metrics ∧
          Report.text "checkout" published.1 published.2 =
            Report.text "checkout" (some stamp.runAt) output.metrics := by
  intro destination stamp
  have hlength : Plan.checkoutEvents.length < UInt64.size := by decide
  have hrun : Plan.checkout.run Plan.checkoutEvents [] =
      .ok (Plan.checkout.output Plan.checkoutEvents []) :=
    Plan.run_eq_ok_iff.2 ⟨by decide, rfl⟩
  obtain ⟨sent, hsent⟩ :=
    exists_yields_publish destination stamp (Plan.checkout.output Plan.checkoutEvents [])
  refine ⟨_, sent, hlength, hrun, hsent, ?_⟩
  intro rows
  have hrows : (rows.map (metricRowParams stamp.runId)).Perm
      (insertedInto destination.metricsTable sent) := by
    rw [insertedInto_metricsTable_of_publish hsent, List.map_map]
    exact (List.reverse_perm _).map _
  exact ⟨hrows, yields_fetchMetrics_of_publish Plan.checkout Plan.checkoutEvents [] _ destination
    stamp "checkout" sent rows hlength hrun hsent hrows⟩

end Store

end Funnel
