import Funnel.Proofs.Entry.Records
import Funnel.Proofs.Plan.Relation

namespace Funnel

theorem Entry.attach_eq_of_mem_iff (declared : List String) (selection : Selection)
    {records others : List AttributeRecord} (h : ∀ record, record ∈ records ↔ record ∈ others)
    (entries : List Entry) :
    attach declared selection records entries = attach declared selection others entries := by
  have hlookup : AttributeRecord.lookup? selection records =
      AttributeRecord.lookup? selection others :=
    funext fun _ => AttributeRecord.lookup?_congr h
  simp only [attach, sessionDimensions, hlookup]

namespace Plan

/-- The results of a run depend on its records only as a set. -/
theorem output_eq_of_mem_iff (plan : Plan) (events : List Event)
    {records others : List AttributeRecord} (h : ∀ record, record ∈ records ↔ record ∈ others) :
    plan.output events records = plan.output events others := by
  have hentries : plan.entries events records = plan.entries events others :=
    Entry.attach_eq_of_mem_iff plan.dimensions plan.selection h _
  simp only [output, hentries]

/-- Runs on the same events with the same records, in any order and any number of times, give the
same results. -/
theorem run_eq_of_mem_iff (plan : Plan) (events : List Event)
    (records others : List AttributeRecord)
    (hrecords : ∀ record, record ∈ records ↔ record ∈ others) (h : firstDefect? events = none) :
    ∃ output, plan.run events records = .ok output ∧ plan.run events others = .ok output := by
  refine ⟨plan.output events records, run_eq_ok_iff.2 ⟨h, rfl⟩, run_eq_ok_iff.2 ⟨h, ?_⟩⟩
  exact plan.output_eq_of_mem_iff events hrecords

/-- The funnel of the shop, with what was known of a user first. -/
def earliestCheckout : Plan where
  config :=
    { Config.checkout with
      lookup := some
        { table := "shop.users"
          userColumn := "user_id"
          sessionColumn := none
          timeColumn := "seen_at"
          attributesColumn := none
          selection := .earliest } }
  accepted := Config.check_eq_ok_of_isOk (by decide +kernel)

/-- Two records of a user from the same time. -/
def tiedRecords : List AttributeRecord :=
  [{ user := "bob", session := none, observedAt := ⟨0⟩,
      values := NameMap.ofList [("os", some "web")] },
    { user := "bob", session := none, observedAt := ⟨0⟩,
      values := NameMap.ofList [("os", some "ios")] }]

theorem run_earliestCheckout_eq_of_mem_iff :
    (∀ record, record ∈ tiedRecords ↔ record ∈ tiedRecords.reverse ++ tiedRecords) ∧
      firstDefect? checkoutEvents = none ∧
      ∃ output, earliestCheckout.run checkoutEvents tiedRecords = .ok output ∧
        earliestCheckout.run checkoutEvents (tiedRecords.reverse ++ tiedRecords) = .ok output := by
  have hrecords : ∀ record,
      record ∈ tiedRecords ↔ record ∈ tiedRecords.reverse ++ tiedRecords := by simp
  exact ⟨hrecords, by decide,
    earliestCheckout.run_eq_of_mem_iff checkoutEvents tiedRecords _ hrecords (by decide)⟩

end Plan

end Funnel
