import Funnel.Proofs.Metric.Ordinals
import Funnel.Proofs.Metric.Times
import Funnel.Proofs.Plan.Unity

namespace Funnel

namespace Plan

/-- In the results of a run on acceptable events sessions are counted by the start of their
journeys. -/
theorem run_countsSessions (plan : Plan) (events : List Event) (records : List AttributeRecord)
    (h : firstDefect? events = none) :
    ∃ output, plan.run events records = .ok output ∧
      Metric.CountsSessions output.entries output.metrics :=
  ⟨plan.output events records, run_eq_ok_iff.2 ⟨h, rfl⟩,
    Metric.countsSessions_ofEntries plan.steps plan.dimensions _⟩

/-- Two sessions of a user that start together, of which the one of the later id goes on. -/
def twinEvents : List Event :=
  let web := NameMap.ofList [("os", some "web")]
  [{ user := "ann", session := "s2", eventType := "home", occurredAt := ⟨10⟩, dimensions := web },
    { user := "ann", session := "s1", eventType := "home", occurredAt := ⟨10⟩, dimensions := web },
    { user := "ann", session := "s2", eventType := "cart", occurredAt := ⟨40⟩,
      dimensions := .empty }]

theorem run_twins_countsSessions :
    firstDefect? twinEvents = none ∧
      ∃ output, checkout.run twinEvents [] = .ok output ∧
        Metric.CountsSessions output.entries output.metrics :=
  ⟨by decide, checkout.run_countsSessions twinEvents [] (by decide)⟩

theorem averagesTimes_output (plan : Plan) (events : List Event) (records : List AttributeRecord) :
    Metric.AveragesTimes (plan.output events records).entries (UInt32.ofNat plan.steps.length)
      (plan.output events records).metrics := by
  have hrelation := plan.isRelation_entries events records
  rw [← maxRank_steps]
  exact Metric.averagesTimes_ofEntries plan.steps plan.dimensions dimensions_eq_of_sessionKey_eq
    hrelation.isSome_secondsToConvert

/-- In the results of a run on acceptable events times are averaged over entries, users and
sessions, and none is left out. -/
theorem run_averagesTimes (plan : Plan) (events : List Event) (records : List AttributeRecord)
    (h : firstDefect? events = none) :
    ∃ output, plan.run events records = .ok output ∧
      Metric.AveragesTimes output.entries (UInt32.ofNat plan.steps.length) output.metrics :=
  ⟨plan.output events records, run_eq_ok_iff.2 ⟨h, rfl⟩, plan.averagesTimes_output events records⟩

theorem run_checkout_averagesTimes :
    firstDefect? checkoutEvents = none ∧
      ∃ output, checkout.run checkoutEvents [] = .ok output ∧
        Metric.AveragesTimes output.entries (UInt32.ofNat checkout.steps.length) output.metrics :=
  ⟨by decide, checkout.run_averagesTimes checkoutEvents [] (by decide)⟩

end Plan

end Funnel
