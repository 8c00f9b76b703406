import Funnel.Proofs.Plan.Relation

namespace Funnel

theorem firstDefect?_eq_none_iff {events : List Event} :
    firstDefect? events = none ↔ ∀ event ∈ events, event.emptyPart? = none := by
  simp only [firstDefect?, List.findSome?_eq_none_iff, Option.map_eq_none_iff]
  constructor
  · intro h event hevent
    obtain ⟨index, hindex, rfl⟩ := List.mem_iff_getElem.1 hevent
    exact h (events[index], index)
      (List.mem_zipIdx_iff_getElem?.2 (List.getElem?_eq_getElem hindex))
  · intro h item hitem
    exact h item.1 (List.fst_mem_of_mem_zipIdx hitem)

/-- Fewer events of an acceptable list are acceptable. -/
theorem firstDefect?_of_subset {events others : List Event} (h : firstDefect? events = none)
    (hsubset : others ⊆ events) : firstDefect? others = none :=
  firstDefect?_eq_none_iff.2 fun event hevent =>
    firstDefect?_eq_none_iff.1 h event (hsubset hevent)

namespace Plan

variable {plan : Plan} (p : String × String → Bool) (events : List Event)

theorem classified_filter :
    plan.classified (events.filter fun event => p (event.user, event.session)) =
      (plan.classified events).filter fun event => p (event.user, event.session) := by
  simp only [classified, classify_eq, List.map_map, List.filter_map]
  rfl

theorem canonical_entries_filter :
    (plan.canonical (events.filter fun event => p (event.user, event.session))).entries =
      (plan.canonical events).entries.filter fun entry => p entry.sessionKey := by
  rw [canonical, classified_filter, Canonical.entries_filter, canonical]

theorem filled_filter :
    plan.filled (events.filter fun event => p (event.user, event.session)) =
      (plan.filled events).filter fun entry => p entry.sessionKey := by
  unfold filled
  rw [canonical_entries_filter]
  by_cases hfill : plan.config.backfill = true
  · simp only [hfill, if_true]
    exact Entry.backfill_filter plan.nodup_ranks p _
  · simp [hfill]

/-- The events of some sessions give the entries of these sessions among all entries. -/
theorem entries_filter (records : List AttributeRecord) :
    plan.entries (events.filter fun event => p (event.user, event.session)) records =
      (plan.entries events records).filter fun entry => p entry.sessionKey := by
  rw [entries, filled_filter, Entry.sequence_filter, Entry.attach_filter, entries]

end Plan

/-- The entries of a session are those of a run on the events of the session only. -/
theorem Plan.run_isolated (plan : Plan) (events : List Event) (records : List AttributeRecord)
    (key : String × String) (h : firstDefect? events = none) :
    ∃ output alone, plan.run events records = .ok output ∧
      plan.run (events.filter fun event => (event.user, event.session) = key) records =
        .ok alone ∧
      alone.entries = Entry.ofSession key output.entries := by
  let own := events.filter fun event => (event.user, event.session) = key
  have hown : firstDefect? own = none := firstDefect?_of_subset h (List.filter_subset_self _)
  refine ⟨plan.output events records, plan.output own records, run_eq_ok_iff.2 ⟨h, rfl⟩,
    run_eq_ok_iff.2 ⟨hown, rfl⟩, ?_⟩
  exact plan.entries_filter (fun other => other = key) events records

theorem Plan.run_checkout_isolated :
    firstDefect? checkoutEvents = none ∧
      ∃ output alone, checkout.run checkoutEvents [] = .ok output ∧
        checkout.run (checkoutEvents.filter fun event =>
          (event.user, event.session) = ("ann", "s1")) [] = .ok alone ∧
        alone.entries = Entry.ofSession ("ann", "s1") output.entries :=
  ⟨by decide, checkout.run_isolated checkoutEvents [] ("ann", "s1") (by decide)⟩

end Funnel
