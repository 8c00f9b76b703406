import Funnel.Proofs.Metric.Means
import Funnel.Proofs.Plan.Counts

/-!
# Which figures are absent

A rate or an average over nobody is absent, and no other is: nothing that an average is taken over
can be missing.
-/

namespace Funnel

open Std

/-- The figures of a row are there exactly if somebody stands behind them: those about reaching it
if some user starts it, and those about going on if some user completes it. -/
structure Metric.IsBacked (metric : Metric) : Prop where
  conversionRate : metric.conversionRate = none ↔ metric.starters = 0
  dropoffRate : metric.dropoffRate = none ↔ metric.starters = 0
  secondsToReach : metric.secondsToReach = none ↔ metric.starters = 0
  sessionsToReach : metric.sessionsToReach = none ↔ metric.starters = 0
  secondsToConvert : metric.secondsToConvert = none ↔ metric.completers = 0
  sessionsToConvert : metric.sessionsToConvert = none ↔ metric.completers = 0

@[simp]
theorem ratePct_eq_none_iff {part whole : Nat} : ratePct part whole = none ↔ whole = 0 := by
  simp [ratePct]

namespace Slice

variable {slice : Slice}

/-- The figures of a step are backed if every entry has a journey of its session, and every
converted entry a time. -/
theorem isBacked_stepMetric (table : List ((String × String) × Nat)) (step : Step)
    (hstart : ∀ entry ∈ slice.entries, (slice.sessionStart? entry).isSome)
    (hseconds : ∀ entry ∈ slice.entries, entry.converted = true → entry.secondsToConvert.isSome) :
    (slice.stepMetric table step).IsBacked := by
  let reached := slice.entries.filter fun entry => entry.stepRank == step.rank
  let converted := reached.filter Entry.converted
  have hreached : ∀ {entry}, entry ∈ reached → entry ∈ slice.entries :=
    fun h => (List.mem_filter.1 h).1
  have hconverted : ∀ {entry}, entry ∈ converted → entry.secondsToConvert.isSome := by
    intro entry h
    obtain ⟨hmem, hconverted⟩ := List.mem_filter.1 h
    exact hseconds entry (hreached hmem) hconverted
  have hstarters : (slice.stepMetric table step).starters = 0 ↔ reached = [] :=
    List.length_eq_zero_iff.trans groupBy_eq_nil_iff
  have hcompleters : (slice.stepMetric table step).completers = 0 ↔ converted = [] :=
    List.length_eq_zero_iff.trans groupBy_eq_nil_iff
  -- a group is not empty, so there is something to take the least or the mean of
  have hordinals : ∀ entries, ∀ group ∈ groupBy Entry.user entries,
      ((leastOrdinal? table group.2).map Float.ofNat).isSome := by
    intro entries group hgroup
    rw [Option.isSome_map]
    exact isSome_leastOrdinal? (ne_nil_of_mem_runs hgroup)
  have htimes : ∀ group ∈ groupBy Entry.user converted,
      (mean (group.2.filterMap fun entry => entry.secondsToConvert.map Float.ofInt)).isSome := by
    intro group hgroup
    rw [Option.isSome_iff_ne_none, ne_eq, mean_filterMap_eq_none_iff]
    · exact ne_nil_of_mem_runs hgroup
    · intro entry hentry
      rw [Option.isSome_map]
      exact hconverted (mem_of_mem_groupBy hgroup hentry)
  constructor
  · exact ratePct_eq_none_iff
  · exact ratePct_eq_none_iff
  · rw [hstarters]
    refine mean_filterMap_eq_none_iff fun entry hentry => ?_
    rw [Option.isSome_map]
    exact hstart entry (hreached hentry)
  · rw [hstarters]
    exact (mean_filterMap_eq_none_iff (hordinals reached)).trans groupBy_eq_nil_iff
  · rw [hcompleters]
    exact (mean_filterMap_eq_none_iff htimes).trans groupBy_eq_nil_iff
  · rw [hcompleters]
    exact (mean_filterMap_eq_none_iff (hordinals converted)).trans groupBy_eq_nil_iff

/-- The figures of the whole funnel are backed if the user of every journey has a number of
sessions. -/
theorem isBacked_endToEndMetric (lastRank : UInt32)
    (hcount : ∀ journey ∈ slice.sessions, (slice.sessionCount? journey.user).isSome) :
    (slice.endToEndMetric lastRank).IsBacked := by
  let starting := slice.sessions.filter fun j => j.firstStep == 1
  let completing := starting.filter fun j => j.lastStep == lastRank
  -- users are counted, and there are none exactly if there are no journeys
  have husers : ∀ journeys : List Journey,
      distinct (journeys.map Journey.user) = [] ↔ journeys = [] := by
    intro journeys
    rw [distinct, List.map_eq_nil_iff, groupBy_eq_nil_iff, List.map_eq_nil_iff]
  have hstarters : (slice.endToEndMetric lastRank).starters = 0 ↔ starting = [] :=
    List.length_eq_zero_iff.trans (husers starting)
  have hcompleters : (slice.endToEndMetric lastRank).completers = 0 ↔ completing = [] :=
    List.length_eq_zero_iff.trans (husers completing)
  have hsessions : ∀ journeys : List Journey, (∀ journey ∈ journeys, journey ∈ slice.sessions) →
      (slice.meanSessions (distinct (journeys.map Journey.user)) = none ↔ journeys = []) := by
    intro journeys hjourneys
    refine (mean_filterMap_eq_none_iff fun user huser => ?_).trans (husers journeys)
    obtain ⟨journey, hjourney, rfl⟩ := List.mem_map.1 (mem_distinct.1 huser)
    rw [Option.isSome_map]
    exact hcount journey (hjourneys journey hjourney)
  have hstarting : ∀ journey ∈ starting, journey ∈ slice.sessions :=
    fun journey h => (List.mem_filter.1 h).1
  constructor
  · exact ratePct_eq_none_iff
  · exact ratePct_eq_none_iff
  · rw [hstarters]
    exact mean_eq_none_iff.trans List.map_eq_nil_iff
  · rw [hstarters]
    exact hsessions starting hstarting
  · rw [hcompleters]
    exact mean_eq_none_iff.trans List.map_eq_nil_iff
  · rw [hcompleters]
    exact hsessions completing fun journey h => hstarting journey (List.mem_filter.1 h).1

end Slice

namespace Metric

variable {entries : List Entry}

theorem isBacked_of_mem_ofEntries {steps : List Step} {declared : List String} {metric : Metric}
    (hseconds : ∀ entry ∈ entries, entry.converted = true → entry.secondsToConvert.isSome)
    (h : metric ∈ ofEntries steps declared entries) : metric.IsBacked := by
  obtain ⟨dimensions, -, ⟨step, -, rfl⟩ | rfl⟩ := mem_ofEntries.1 h
  · refine Slice.isBacked_stepMetric _ step (fun entry hentry => ?_) fun entry hentry => ?_
    · obtain ⟨hmem, rfl⟩ := mem_entries_sliceOf.1 hentry
      obtain ⟨journey, hjourney, hin⟩ := Journey.exists_mem_members hmem
      rw [sessionStart?_eq_some hjourney hin]
      rfl
    · exact hseconds entry (mem_entries_sliceOf.1 hentry).1
  · refine Slice.isBacked_endToEndMetric _ fun journey hjourney => ?_
    obtain ⟨hmem, rfl⟩ := mem_sessions_sliceOf.1 hjourney
    obtain ⟨whole, hwhole, huser, hdimensions⟩ := Journey.exists_mem_ofUsers_of_session hmem
    rw [← huser, ← hdimensions, sessionCount?_eq_some hwhole]
    rfl

end Metric

namespace Plan

/-- In the metrics of a run on acceptable events a figure is absent exactly if nobody stands behind
it. -/
theorem run_isBacked (plan : Plan) (events : List Event) (records : List AttributeRecord)
    (h : firstDefect? events = none) :
    ∃ output, plan.run events records = .ok output ∧
      ∀ metric ∈ output.metrics, metric.IsBacked := by
  refine ⟨plan.output events records, run_eq_ok_iff.2 ⟨h, rfl⟩, fun metric hmetric => ?_⟩
  have hrelation := plan.isRelation_entries events records
  exact Metric.isBacked_of_mem_ofEntries hrelation.isSome_secondsToConvert hmetric

theorem run_checkout_isBacked :
    firstDefect? checkoutEvents = none ∧
      ∃ output, checkout.run checkoutEvents [] = .ok output ∧
        ∀ metric ∈ output.metrics, metric.IsBacked :=
  ⟨by decide, checkout.run_isBacked checkoutEvents [] (by decide)⟩

end Plan

end Funnel
