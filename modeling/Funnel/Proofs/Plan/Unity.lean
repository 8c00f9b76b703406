import Funnel.Proofs.Plan.Counts

/-!
# One combination for a session

All entries of a session carry one map of the declared dimensions, so a session has one journey and
is counted in one combination.
-/

namespace Funnel

open Std

/-- In some results every session belongs to one combination of the declared dimensions. -/
structure RunOutput.IsUnified (declared : List String) (output : RunOutput) : Prop where
  /-- The dimensions of an entry are the declared ones. -/
  entryNames : ∀ entry ∈ output.entries, ∀ name, name ∈ entry.dimensions.names ↔ name ∈ declared
  /-- The dimensions of a metric are the declared ones. -/
  metricNames : ∀ metric ∈ output.metrics, ∀ name,
    name ∈ metric.dimensions.names ↔ name ∈ declared
  /-- The entries of a session carry one map. -/
  session : ∀ a ∈ output.entries, ∀ b ∈ output.entries, a.sessionKey = b.sessionKey →
    a.dimensions = b.dimensions
  /-- The journeys of sessions are one for each session with an entry, in order of user and
  session. -/
  journeys : (Journey.ofSessions output.entries).map (fun journey =>
      (journey.user, journey.session)) =
    (distinct (output.entries.map Entry.sessionKey)).map fun key => (key.1, some key.2)
  /-- The journey of a session has its map and sums up all of its entries. -/
  whole : ∀ entry ∈ output.entries, ∃ journey ∈ Journey.ofSessions output.entries,
    journey.user = entry.user ∧ journey.session = some entry.session ∧
      journey.dimensions = entry.dimensions ∧
      journey.SumsUp (Entry.ofSession entry.sessionKey output.entries)
  /-- The sessions that are counted are those with an entry. -/
  sessions : output.stats.sessions =
    { key | ∃ entry ∈ output.entries, entry.sessionKey = key }.ncard
  /-- An entry falls into one combination of the metrics. -/
  combination : ∀ entry ∈ output.entries, ∃! dimensions,
    dimensions ∈ output.metrics.map Metric.dimensions ∧
      entry ∈ (Metric.sliceOf output.entries dimensions).entries
  /-- The metrics of a combination are listed once. -/
  rows : (output.metrics.map Metric.label).Nodup

namespace Plan

variable {plan : Plan} {events : List Event} {records : List AttributeRecord}

theorem mem_names_of_mem_entries {entry : Entry} (h : entry ∈ plan.entries events records)
    {name : String} : name ∈ entry.dimensions.names ↔ name ∈ plan.dimensions := by
  rw [dimensions_of_mem_entries h]
  exact Entry.mem_names_dimensionsOf

theorem mem_names_of_mem_metrics {metric : Metric}
    (h : metric ∈ (plan.output events records).metrics) {name : String} :
    name ∈ metric.dimensions.names ↔ name ∈ plan.dimensions := by
  have hmem := (Metric.exists_of_mem_ofEntries h).1
  rcases Metric.mem_combinationsOf.1 hmem with ⟨entry, hentry, heq⟩ | ⟨-, heq⟩
  · rw [← heq]
    exact mem_names_of_mem_entries hentry
  · rw [heq]
    exact Dimensions.mem_names_ofNames

theorem dimensions_eq_of_sessionKey_eq : ∀ a ∈ plan.entries events records,
    ∀ b ∈ plan.entries events records, a.sessionKey = b.sessionKey →
      a.dimensions = b.dimensions := by
  intro a ha b hb hkey
  rw [dimensions_of_mem_entries ha, dimensions_of_mem_entries hb, hkey]

theorem isUnified_output (plan : Plan) (events : List Event) (records : List AttributeRecord) :
    (plan.output events records).IsUnified plan.dimensions where
  entryNames entry hentry name := mem_names_of_mem_entries hentry
  metricNames metric hmetric name := mem_names_of_mem_metrics hmetric
  session := dimensions_eq_of_sessionKey_eq
  journeys := Journey.map_session_ofSessions dimensions_eq_of_sessionKey_eq
  whole entry hentry :=
    Journey.exists_mem_ofSessions_of_unified dimensions_eq_of_sessionKey_eq hentry
  sessions := Journey.length_ofSessions dimensions_eq_of_sessionKey_eq
  combination := by
    intro entry hentry
    refine ⟨entry.dimensions, ⟨?_, Metric.mem_entries_sliceOf.2 ⟨hentry, rfl⟩⟩, ?_⟩
    · exact Metric.mem_map_dimensions_ofEntries.2 (.inl ⟨entry, hentry, rfl⟩)
    · rintro dimensions ⟨-, hslice⟩
      exact (Metric.mem_entries_sliceOf.1 hslice).2.symm
  rows := Metric.nodup_label_aggregate plan.nodup_ranks _ _ _ _

/-- In the results of a run on acceptable events every session belongs to one combination. -/
theorem run_isUnified (plan : Plan) (events : List Event) (records : List AttributeRecord)
    (h : firstDefect? events = none) :
    ∃ output, plan.run events records = .ok output ∧ output.IsUnified plan.dimensions :=
  ⟨plan.output events records, run_eq_ok_iff.2 ⟨h, rfl⟩, plan.isUnified_output events records⟩

/-- The events of the shop carry a dimension that it does not declare, and so does a record of a
user. -/
theorem run_checkout_isUnified :
    let events := checkoutEvents.map fun event =>
      { event with dimensions := event.dimensions.insert "theme" (some "dark") }
    let record : AttributeRecord :=
      { user := "bob", session := none, observedAt := ⟨0⟩
        values := NameMap.ofList [("os", some "tv"), ("tier", some "gold")] }
    firstDefect? events = none ∧
      ∃ output, checkout.run events [record] = .ok output ∧ output.IsUnified ["os"] := by
  intro events record
  have haccepted : firstDefect? events = none := by decide
  exact ⟨haccepted, checkout.run_isUnified events [record] haccepted⟩

end Plan

end Funnel
