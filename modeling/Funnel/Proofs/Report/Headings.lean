import Mathlib
import Funnel.Command.Run
import Funnel.Proofs.Dimensions.Label
import Funnel.Proofs.Report.Sections

/-!
# The headings of a run

The maps of a run have the same names, so that the legible ones among them have different headings.
-/

namespace Funnel

open Time

namespace RunOutput

/-- The first lines of a summary. -/
def countLines (stats : RunStats) : String :=
  toString stats.rawEvents ++ " events, " ++ toString stats.matchedEvents ++ " matched, " ++
    toString stats.unmappedEvents ++ " unmapped, " ++ toString stats.duplicatesRemoved ++
    " duplicates removed, " ++ toString stats.backfilledEntries ++ " backfilled\n" ++
  toString stats.entries ++ " funnel rows across " ++ toString stats.sessions ++
    " sessions and " ++ toString stats.users ++ " users\n"

/-- What the line of a map says behind its heading. -/
def shareText (total : Metric) : String :=
  toString total.completers ++ " of " ++ toString total.starters ++ " starters completed (" ++
    Report.percent total.conversionRate ++ ")\n"

/-- What is shown of some results is headed by some maps. -/
structure IsHeaded (output : RunOutput) (maps : List Dimensions) (total : Dimensions → Metric) :
    Prop where
  /-- The maps are those of the metrics, each once. -/
  mem_maps : ∀ d, d ∈ maps ↔ d ∈ output.metrics.map Metric.dimensions
  nodup : maps.Nodup
  /-- The sections of a report have their headings, -/
  report : ∀ (funnelName : String) (runAt : Option Instant), ∃ body : Dimensions → List String,
    Report.lines funnelName runAt output.metrics = Report.header funnelName runAt ++
      maps.flatMap fun d => "" :: ("## " ++ d.label) :: body d
  /-- and so have the lines of the summary, which are about the whole funnel. -/
  summary : output.summary = countLines output.stats ++
    String.join (maps.map fun d => "- " ++ d.label ++ ": " ++ shareText (total d))
  totals : ∀ d ∈ maps, total d ∈ output.metrics ∧ (total d).IsEndToEnd d
  /-- A map is legible unless it has the text for an unset value as a value, or the separator of the
  next name within a value. -/
  isLegible_iff : ∀ d ∈ maps, d.IsLegible ↔ (∀ entry ∈ d.entries, entry.2 ≠ some "(none)") ∧
    d.entries.IsChain fun entry next =>
      ∀ value ∈ entry.2, ¬ (Dimensions.separator next.1).toList <:+: value.toList
  /-- Legible maps have different headings. -/
  apart : ∀ d ∈ maps, ∀ e ∈ maps, d.IsLegible → e.IsLegible → d ≠ e → d.label ≠ e.label

/-- A summary is its counts and one line for each row about the whole funnel. -/
theorem summary_eq (output : RunOutput) :
    output.summary = countLines output.stats ++
      String.join ((output.metrics.filter fun metric => metric.level == .endToEnd).map fun metric =>
        "- " ++ metric.dimensions.label ++ ": " ++ shareText metric) := by
  have hline : ∀ metric : Metric,
      "- " ++ metric.dimensions.label ++ ": " ++ shareText metric =
        "- " ++ metric.dimensions.label ++ ": " ++ toString metric.completers ++ " of " ++
          toString metric.starters ++ " starters completed (" ++
          Report.percent metric.conversionRate ++ ")\n" := by
    intro metric
    simp only [shareText, String.append_assoc]
  simp only [hline]
  rfl

/-- Of the rows of a combination the summary shows the one about the whole funnel. -/
theorem filter_aggregate_endToEnd (steps : List Step) (declared : List String)
    (entries : List Entry) (sessions users : List Journey) :
    (Metric.aggregate steps declared entries sessions users).filter
        (fun metric => metric.level == .endToEnd) =
      (Metric.combinations declared entries sessions users).map fun d =>
        (Slice.ofDimensions entries sessions users d).endToEndMetric (Step.maxRank steps) := by
  have hslice : ∀ slice : Slice, (slice.metrics steps).filter
      (fun metric => metric.level == .endToEnd) = [slice.endToEndMetric (Step.maxRank steps)] := by
    intro slice
    rw [Slice.metrics, List.filter_append, List.filter_eq_nil_iff.2]
    · rfl
    · intro metric hmetric
      obtain ⟨step, -, rfl⟩ := List.mem_map.1 hmetric
      exact Bool.false_ne_true
  rw [Metric.aggregate, List.filter_flatMap]
  simp only [hslice]
  exact List.map_eq_flatMap.symm

end RunOutput

namespace Plan

theorem summary_output (plan : Plan) (events : List Event) (records : List AttributeRecord) :
    (plan.output events records).summary =
      RunOutput.countLines (plan.output events records).stats ++
        String.join ((Metric.combinationsOf plan.dimensions (plan.entries events records)).map
          fun d => "- " ++ d.label ++ ": " ++
            RunOutput.shareText (plan.totalOf events records d)) := by
  have hrows : (plan.output events records).metrics.filter
      (fun metric => metric.level == .endToEnd) =
        (Metric.combinationsOf plan.dimensions (plan.entries events records)).map
          (plan.totalOf events records) :=
    RunOutput.filter_aggregate_endToEnd ..
  rw [RunOutput.summary_eq, hrows, List.map_map]
  rfl

/-- What is shown of a run is headed by the maps that its metrics are about. -/
theorem isHeaded_output (plan : Plan) (events : List Event) (records : List AttributeRecord) :
    (plan.output events records).IsHeaded
      (Metric.combinationsOf plan.dimensions (plan.entries events records))
      (plan.totalOf events records) := by
  have htabulated := plan.isTabulated_output events records
  have hmetric : ∀ d ∈ Metric.combinationsOf plan.dimensions (plan.entries events records),
      ∃ metric ∈ (plan.output events records).metrics, metric.dimensions = d :=
    fun d hd => List.mem_map.1 ((htabulated.mem_maps d).1 hd)
  exact
    { mem_maps := htabulated.mem_maps
      nodup := htabulated.ascending_maps.nodup
      report := fun funnelName runAt => ⟨_, htabulated.lines funnelName runAt⟩
      summary := plan.summary_output events records
      totals := fun d hd =>
        let ⟨hmem, htotal, _⟩ := htabulated.totals d hd
        ⟨hmem, htotal⟩
      isLegible_iff := by
        intro d hd
        obtain ⟨metric, hmetric, rfl⟩ := hmetric d hd
        refine Dimensions.isLegible_iff fun name hname hcomma => ?_
        have hplain := isPlainName_of_mem_metrics hmetric hname
        exact absurd (hplain.isWordChar_of_mem hcomma) (by decide)
      apart := by
        intro d hd e he hlegible hlegible' hne hlabel
        obtain ⟨metric, hmem, rfl⟩ := hmetric d hd
        obtain ⟨metric', hmem', rfl⟩ := hmetric e he
        -- all maps of a run have the names that its plan declares
        have hnames : metric.dimensions.names = metric'.dimensions.names := by
          refine NameMap.names_eq_of_mem_iff fun name => ?_
          rw [mem_names_of_mem_metrics hmem, mem_names_of_mem_metrics hmem']
        exact hne (hlegible.eq_of_label_eq hlegible' hnames hlabel) }

/-- In the report on a run on acceptable events, and in its summary, legible maps have different
headings. So they have wherever two maps have the same names; and a map that is not legible shares
its heading with a legible one. -/
theorem run_isHeaded (plan : Plan) (events : List Event) (records : List AttributeRecord)
    (h : firstDefect? events = none) :
    (∀ d e : Dimensions, d.names = e.names → d.IsLegible → e.IsLegible → d ≠ e →
      d.label ≠ e.label) ∧
    (∀ d : Dimensions, ¬ d.IsLegible →
      ∃ e : Dimensions, e.IsLegible ∧ e.names = d.names ∧ e ≠ d ∧ e.label = d.label) ∧
    ∃ output maps total, plan.run events records = .ok output ∧ output.IsHeaded maps total := by
  refine ⟨fun d e hnames hd he hne hlabel => hne (hd.eq_of_label_eq he hnames hlabel),
    fun d hd => ?_, plan.output events records, _, _, run_eq_ok_iff.2 ⟨h, rfl⟩,
    plan.isHeaded_output events records⟩
  obtain ⟨e, ⟨he, hnames, hlabel⟩, -⟩ := d.existsUnique_isLegible
  exact ⟨e, he, hnames, fun heq => hd (heq ▸ he), hlabel⟩

theorem run_checkout_isHeaded :
    firstDefect? checkoutEvents = none ∧ ∃ output maps total,
      checkout.run checkoutEvents [] = .ok output ∧ output.IsHeaded maps total :=
  ⟨by decide, (checkout.run_isHeaded checkoutEvents [] (by decide)).2.2⟩

/-- Visits to the first step of the shop, from a system of which nothing is known and from one that
calls itself what headings call that. -/
def unnamedSystemEvents : List Event :=
  [{ user := "ann", session := "s1", eventType := "home", occurredAt := ⟨10⟩,
      dimensions := NameMap.ofList [("os", none)] },
    { user := "bob", session := "s2", eventType := "home", occurredAt := ⟨20⟩,
      dimensions := NameMap.ofList [("os", some "(none)")] }]

/-- The two maps of these events have the same names and the same heading. -/
theorem run_checkout_shares_heading :
    ∃ output, checkout.run unnamedSystemEvents [] = .ok output ∧
      ∃ d e : Dimensions, d ∈ output.metrics.map Metric.dimensions ∧
        e ∈ output.metrics.map Metric.dimensions ∧ d.names = e.names ∧ d ≠ e ∧
        d.label = "os=(none)" ∧ e.label = "os=(none)" := by
  have hmaps : (checkout.entries unnamedSystemEvents []).map Entry.dimensions =
      [NameMap.ofList [("os", none)], NameMap.ofList [("os", some "(none)")]] := by
    cbv
  have hmem : ∀ d ∈ [NameMap.ofList [("os", none)], NameMap.ofList [("os", some "(none)")]],
      d ∈ (checkout.output unnamedSystemEvents []).metrics.map Metric.dimensions := by
    intro d hd
    rw [← hmaps] at hd
    exact Metric.mem_map_dimensions_ofEntries.2 (.inl (List.mem_map.1 hd))
  exact ⟨checkout.output unnamedSystemEvents [], run_eq_ok_iff.2 ⟨by decide, rfl⟩, _, _,
    hmem _ (List.mem_cons_self ..), hmem _ (List.mem_cons_of_mem _ (List.mem_singleton_self _)),
    by decide, by decide, by decide, by decide⟩

end Plan

end Funnel
