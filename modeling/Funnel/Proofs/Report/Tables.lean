import Mathlib
import Funnel.Proofs.Report.Cells
import Funnel.Proofs.Report.Sections

/-!
# The tables of a run

A report writes names and values as they are. Unless one of them holds a line feed, or the name of a
step a bar, the report is cut into its lines and each line of a table into seven cells.
-/

namespace Funnel

open Time

/-- A character that stands in no name and nowhere between names and values has to stand in a
value. -/
theorem Dimensions.not_mem_label {d : Dimensions} {c : Char}
    (hfixed : c ∉ "all users, =(none)".toList) (hnames : ∀ name ∈ d.names, c ∉ name.toList) :
    c ∉ d.label.toList ↔ ∀ entry ∈ d.entries, ∀ value ∈ entry.2, c ∉ value.toList := by
  have hparts : ∀ part ∈ ["all users", ", ", "=", "(none)"], c ∉ part.toList := by
    intro part hpart hc
    have hsub : ∀ part ∈ ["all users", ", ", "=", "(none)"],
        part.toList ⊆ "all users, =(none)".toList := by
      decide
    exact hfixed (hsub part hpart hc)
  have hentry : ∀ entry ∈ d.entries, (c ∉ (entry.1 ++ "=" ++ entry.2.getD "(none)").toList ↔
      ∀ value ∈ entry.2, c ∉ value.toList) := by
    intro entry hentry
    have hname : c ∉ entry.1.toList := hnames _ (List.mem_map_of_mem hentry)
    have hequals : c ∉ "=".toList := hparts _ (by simp)
    simp only [String.toList_append, List.mem_append, hname, hequals, false_or]
    cases entry.2 with
    | none => exact iff_of_true (hparts "(none)" (by simp)) nofun
    | some value => simp
  unfold label
  split
  · rename_i hempty
    have hentries : d.entries = [] := List.isEmpty_iff.1 hempty
    simpa [hentries] using hparts "all users" (by simp)
  · rw [Text.not_mem_intercalate (hparts ", " (by simp)), List.forall_mem_map]
    exact forall₂_congr hentry

namespace Report

variable {steps : List Step} {metrics : List Metric} {maps : List Dimensions}
  {total : Dimensions → Metric} {row : Dimensions → Step → Metric}

/-- What a report that has sections is cut into at its line feeds, and the lines of its tables at
their bars. -/
structure IsCut (steps : List Step) (metrics : List Metric) (maps : List Dimensions)
    (row : Dimensions → Step → Metric) : Prop where
  /-- The report is cut into its lines, with nothing behind the last one, unless there is a line
  feed in the name of the funnel, in a value or in the name of a step. -/
  lines_iff : ∀ (funnelName : String) (runAt : Option Instant),
    Text.pieces '\n' (text funnelName runAt metrics) = lines funnelName runAt metrics ++ [""] ↔
      '\n' ∉ funnelName.toList ∧
        (∀ dimensions ∈ maps, ∀ entry ∈ dimensions.entries, ∀ value ∈ entry.2,
          '\n' ∉ value.toList) ∧
        ∀ step ∈ steps, '\n' ∉ step.name.toList
  /-- The line of a step is cut into its seven cells, with nothing outside of the outer bars, unless
  there is a bar in the name of the step. -/
  cells_iff : ∀ dimensions ∈ maps, ∀ step ∈ steps,
    Text.pieces '|' (tableLine (stepCells step (row dimensions step))) =
        framed (stepCells step (row dimensions step)) ↔
      '|' ∉ step.name.toList
  /-- Every bar in the name of the step makes a cell more. -/
  length_cells : ∀ dimensions ∈ maps, ∀ step ∈ steps,
    (Text.pieces '|' (tableLine (stepCells step (row dimensions step)))).length =
      9 + step.name.toList.count '|'

theorem isInline_endToEndLine (metric : Metric) : IsInline (endToEndLine metric) := by
  simp only [endToEndLine, isInline_append, isInline_toString, isInline_percent,
    isInline_duration, isInline_sessions, true_and, and_true]
  decide

theorem stepCells_ne_nil (step : Step) (metric : Metric) : stepCells step metric ≠ [] :=
  List.cons_ne_nil _ _

/-- Of the cells of a step only the name may have a bar or a line feed. -/
theorem forall_mem_stepCells {p : String → Prop} {step : Step} {metric : Metric}
    (h : ∀ s, IsInline s → p s) : (∀ cell ∈ stepCells step metric, p cell) ↔ p step.name := by
  simp only [stepCells, List.forall_mem_cons, List.not_mem_nil, false_imp_iff, implies_true,
    h _ (isInline_toString _), h _ (isInline_percent _), h _ (isInline_duration _), true_and,
    and_true]

theorem not_mem_tableLine {cells : List String} :
    '\n' ∉ (tableLine cells).toList ↔ ∀ cell ∈ cells, '\n' ∉ cell.toList := by
  have hsep : '\n' ∉ " | ".toList := by decide
  rw [← Text.not_mem_intercalate hsep, tableLine]
  simp

/-- The lines of a combination are without line feeds if its heading and the names of the steps
are. -/
theorem forall_mem_combinationLines {dimensions : Dimensions} {metric : Metric}
    {row : Step → Metric} :
    (∀ line ∈ combinationLines steps dimensions metric row, '\n' ∉ line.toList) ↔
      '\n' ∉ dimensions.label.toList ∧ ∀ step ∈ steps, '\n' ∉ step.name.toList := by
  have hstep : ∀ step, '\n' ∉ (tableLine (stepCells step (row step))).toList ↔
      '\n' ∉ step.name.toList :=
    fun step => not_mem_tableLine.trans (forall_mem_stepCells fun _ h => h.2)
  have hheading : '\n' ∉ ("## " ++ dimensions.label).toList ↔ '\n' ∉ dimensions.label.toList := by
    simp
  have hblank : '\n' ∉ "".toList := by decide
  have hcolumns : '\n' ∉
      "| # | Step | Starters | Completers | Dropoffs | Conversion | Avg time to convert |".toList := by
    decide
  have hrule : '\n' ∉ "|---|---|---|---|---|---|---|".toList := by decide
  simp only [combinationLines, List.forall_mem_append, List.forall_mem_cons, List.forall_mem_map,
    mem_sortOn, List.not_mem_nil, false_imp_iff, implies_true, hstep, hheading,
    (isInline_endToEndLine metric).2, hblank, hcolumns, hrule, not_false_eq_true, true_and,
    and_true]

/-- What the report on some rows is cut into. -/
theorem IsTabulated.isCut (h : IsTabulated steps metrics maps total row) (hmetrics : metrics ≠ [])
    (hnames : ∀ metric ∈ metrics, ∀ name ∈ metric.dimensions.names, '\n' ∉ name.toList) :
    IsCut steps metrics maps row where
  lines_iff funnelName runAt := by
    have hheader : (∀ line ∈ header funnelName runAt, '\n' ∉ line.toList) ↔
        '\n' ∉ funnelName.toList := by
      cases runAt with
      | none => simp [header]
      | some t => simp [header, (isInline_minuteText t).2]
    have hlabel : ∀ dimensions ∈ maps, ('\n' ∉ dimensions.label.toList ↔
        ∀ entry ∈ dimensions.entries, ∀ value ∈ entry.2, '\n' ∉ value.toList) := by
      intro dimensions hmem
      obtain ⟨metric, hmetric, rfl⟩ := List.mem_map.1 ((h.mem_maps dimensions).1 hmem)
      exact Dimensions.not_mem_label (by decide) (hnames metric hmetric)
    rw [pieces_text_eq_iff, h.lines, List.forall_mem_append, hheader]
    refine and_congr_right fun _ => ?_
    have hsections : (∀ line ∈ maps.flatMap fun dimensions =>
        combinationLines steps dimensions (total dimensions) (row dimensions),
          '\n' ∉ line.toList) ↔
        ∀ dimensions ∈ maps, (∀ entry ∈ dimensions.entries, ∀ value ∈ entry.2,
          '\n' ∉ value.toList) ∧ ∀ step ∈ steps, '\n' ∉ step.name.toList := by
      rw [List.forall_mem_flatMap]
      exact forall₂_congr fun dimensions hmem =>
        forall_mem_combinationLines.trans (and_congr_left' (hlabel dimensions hmem))
    -- there is a section, and in it a line for every step
    obtain ⟨metric, hmetric⟩ := List.exists_mem_of_ne_nil metrics hmetrics
    have hfirst : metric.dimensions ∈ maps := (h.mem_maps _).2 (List.mem_map_of_mem hmetric)
    rw [hsections]
    exact ⟨fun h => ⟨fun dimensions hmem => (h dimensions hmem).1, (h _ hfirst).2⟩,
      fun h dimensions hmem => ⟨h.1 dimensions hmem, h.2⟩⟩
  cells_iff dimensions _ step _ := by
    rw [pieces_tableLine_eq_iff (stepCells_ne_nil step _)]
    exact forall_mem_stepCells fun _ h => h.1
  length_cells dimensions _ step _ := by
    have hcount : ∀ s, IsInline s → s.toList.count '|' = 0 := fun s h => List.count_eq_zero.2 h.1
    rw [length_pieces_tableLine (stepCells_ne_nil step _)]
    simp only [stepCells, List.map_cons, List.map_nil, Funnel.total, List.foldr_cons,
      List.foldr_nil, List.length_cons, List.length_nil, hcount _ (isInline_toString _),
      hcount _ (isInline_percent _), hcount _ (isInline_duration _)]
    omega

end Report

namespace Plan

/-- The report on a run on acceptable events has a section for each combination, with a table that
has one line for each step, and is cut into these lines and their cells as far as names and values
allow. -/
theorem run_isTabulated (plan : Plan) (events : List Event) (records : List AttributeRecord)
    (h : firstDefect? events = none) :
    ∃ output maps total row, plan.run events records = .ok output ∧
      Report.IsTabulated plan.steps output.metrics maps total row ∧
      Report.IsCut plan.steps output.metrics maps row := by
  have htabulated := plan.isTabulated_output events records
  refine ⟨plan.output events records, _, _, _, run_eq_ok_iff.2 ⟨h, rfl⟩, htabulated, ?_⟩
  refine htabulated.isCut (Metric.ofEntries_ne_nil _ _ _) fun metric hmetric name hname hfeed => ?_
  exact absurd ((isPlainName_of_mem_metrics hmetric hname).isWordChar_of_mem hfeed) (by decide)

theorem run_checkout_isTabulated :
    firstDefect? checkoutEvents = none ∧ ∃ output maps total row,
      checkout.run checkoutEvents [] = .ok output ∧
        Report.IsTabulated checkout.steps output.metrics maps total row ∧
        Report.IsCut checkout.steps output.metrics maps row :=
  ⟨by decide, checkout.run_isTabulated checkoutEvents [] (by decide)⟩

/-- The shop with one step only, whose name has a bar. -/
def piped : Plan where
  config :=
    { Config.checkout with
      steps := [{ rank := 1, name := "Home | Landing", eventTypes := .ofTexts ["home"] }] }
  accepted := Config.check_eq_ok_of_isOk (by decide +kernel)

/-- In the report on a run without events the line of this step is cut into eight cells. -/
theorem run_piped_splits_name :
    ∃ output, piped.run [] [] = .ok output ∧
      ∃ line ∈ Report.lines "checkout" none output.metrics,
        line = "| 1 | Home | Landing | 0 | 0 | 0 | n/a | n/a |" ∧
        Text.pieces '|' line = ["", " 1 ", " Home ", " Landing ", " 0 ", " 0 ", " 0 ", " n/a ",
          " n/a ", ""] := by
  have hlines : Report.lines "checkout" none (piped.output [] []).metrics =
      ["# Funnel Report: checkout", "No published run found.", "", "## os=(none)",
        "0 of 0 starters completed the funnel (n/a), averaging n/a and n/a sessions to convert.",
        "", "| # | Step | Starters | Completers | Dropoffs | Conversion | Avg time to convert |",
        "|---|---|---|---|---|---|---|", "| 1 | Home | Landing | 0 | 0 | 0 | n/a | n/a |"] := by
    cbv
  refine ⟨piped.output [] [], run_eq_ok_iff.2 ⟨by decide, rfl⟩, _, ?_, rfl, by decide⟩
  rw [hlines]
  simp

end Plan

end Funnel
