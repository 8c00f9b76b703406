import Funnel.Proofs.Event.Coverage
import Funnel.Proofs.Plan.Isolation

/-!
# Runs do not depend on the order of events

Without declared dimensions two events of a step of a session that are equally late and of one type
are the same event, so it does not matter which of them stands for the step.
-/

namespace Funnel.Plan

open Std

variable {plan : Plan} {events others : List Event}

/-- Without dimensions, two events of one slot and of equal precedence are equal. -/
theorem eq_of_mem_classified (hdimensions : plan.dimensions = []) {a b : ClassifiedEvent}
    (ha : a ∈ plan.classified events) (hb : b ∈ plan.classified events) (hslot : a.slot = b.slot)
    (hprecedence : a.precedence = b.precedence) : a = b := by
  have hempty : ∀ c ∈ plan.classified events, c.dimensions = NameMap.empty := by
    intro c hc
    obtain ⟨event, -, rfl⟩ := mem_classified_iff.1 hc
    simp only [Event.classified, hdimensions]
    rfl
  exact ClassifiedEvent.eq_of_slot_eq hslot hprecedence ((hempty a ha).trans (hempty b hb).symm)

theorem classified_perm (plan : Plan) (hperm : events.Perm others) :
    (plan.classified events).Perm (plan.classified others) := by
  simp only [classified, classify_eq]
  exact (hperm.map _).map _

theorem canonical_eq_of_perm (hdimensions : plan.dimensions = []) (hperm : events.Perm others) :
    plan.canonical events = plan.canonical others := by
  have hclassified := plan.classified_perm hperm
  have hkept := Canonical.kept_eq_of_perm hclassified fun a ha b hb hslot ha_tops hb_tops =>
    eq_of_mem_classified hdimensions ha hb hslot (ha_tops.precedence_eq hb_tops ha hb hslot)
  simp only [canonical, Canonical.ofEvents, hkept, hclassified.length_eq]

theorem entries_eq_of_perm (hdimensions : plan.dimensions = []) (hperm : events.Perm others)
    (records records' : List AttributeRecord) :
    plan.entries events records = plan.entries others records' := by
  have hfilled : plan.filled events = plan.filled others := by
    unfold filled
    rw [canonical_eq_of_perm hdimensions hperm]
  simp only [entries, Entry.attach_eq, hdimensions, Entry.dimensionsOf_nil, hfilled]

/-- Without dimensions, the results of a run depend neither on the order of the events nor on the
attribute records. -/
theorem output_eq_of_perm (hdimensions : plan.dimensions = []) (hperm : events.Perm others)
    (records records' : List AttributeRecord) :
    plan.output events records = plan.output others records' := by
  have hentries := entries_eq_of_perm hdimensions hperm records records'
  have hcanonical := canonical_eq_of_perm hdimensions hperm
  have hcoverage := Coverage.ofEvents_eq_of_perm plan.steps (plan.classified_perm hperm)
  simp only [output, filled, hentries, hcanonical, hcoverage, hperm.length_eq]

/-- Without dimensions, runs on the same events in different orders give the same results, whichever
attribute records they get. -/
theorem run_eq_of_perm (plan : Plan) (events others : List Event)
    (records records' : List AttributeRecord) (hdimensions : plan.dimensions = [])
    (hperm : events.Perm others) (h : firstDefect? events = none) :
    ∃ output, plan.run events records = .ok output ∧ plan.run others records' = .ok output := by
  have hothers : firstDefect? others = none := firstDefect?_of_subset h hperm.symm.subset
  refine ⟨plan.output events records, run_eq_ok_iff.2 ⟨h, rfl⟩, run_eq_ok_iff.2 ⟨hothers, ?_⟩⟩
  exact output_eq_of_perm hdimensions hperm records records'

/-- The funnel of the shop without dimensions. -/
def plainCheckout : Plan where
  config := { Config.checkout with dimensions := [] }
  accepted := Config.check_eq_ok_of_isOk (by decide +kernel)

/-- What is known of a user of the shop. -/
def checkoutRecord : AttributeRecord where
  user := "ann"
  session := none
  observedAt := ⟨0⟩
  values := NameMap.ofList [("os", some "web")]

theorem run_plainCheckout_eq_of_perm :
    plainCheckout.dimensions = [] ∧ checkoutEvents.Perm checkoutEvents.reverse ∧
      firstDefect? checkoutEvents = none ∧
      ∃ output, plainCheckout.run checkoutEvents [] = .ok output ∧
        plainCheckout.run checkoutEvents.reverse [checkoutRecord] = .ok output :=
  ⟨rfl, (List.reverse_perm _).symm, by decide,
    plainCheckout.run_eq_of_perm checkoutEvents checkoutEvents.reverse [] [checkoutRecord] rfl
      (List.reverse_perm _).symm (by decide)⟩

end Funnel.Plan
