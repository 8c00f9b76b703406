import Funnel.Proofs.Event.Resolution
import Funnel.Proofs.Plan.Additivity

/-!
# Events without influence

Behind the canonical form of its events a run sees entries only. So events that come again, and
events that no step claims, show in the counts of events and nowhere else.
-/

namespace Funnel

open Std

namespace Plan

variable {plan : Plan} {events others : List Event}

/-- All that a run makes of its events, apart from counting them, it makes of their entries. -/
theorem output_congr (records : List AttributeRecord)
    (h : (plan.canonical others).entries = (plan.canonical events).entries) :
    let output := plan.output events records
    let other := plan.output others records
    other.entries = output.entries ∧ other.metrics = output.metrics ∧
      other.stats =
        { output.stats with
          rawEvents := other.stats.rawEvents
          matchedEvents := other.stats.matchedEvents
          unmappedByType := other.stats.unmappedByType
          duplicatesRemoved := other.stats.duplicatesRemoved } := by
  have hfilled : plan.filled others = plan.filled events := by
    unfold filled
    rw [h]
  have hentries : plan.entries others records = plan.entries events records := by
    unfold entries
    rw [hfilled]
  simp only [output, h, hfilled, hentries, and_self]

end Plan

/-- The counts of a run with some of its events delivered again. The copies are dropped as
duplicates, and before that they are counted like all other events. -/
def RunStats.withCopies (stats : RunStats) (steps : List Step) (copies : List Event) : RunStats :=
  { stats with
    rawEvents := stats.rawEvents + copies.length
    matchedEvents := stats.matchedEvents +
      copies.countP fun copy => (Step.resolve? steps copy.eventType).isSome
    unmappedByType := stats.unmappedByType.map fun (eventType, count) =>
      (eventType, count + copies.countP fun copy =>
        (Step.resolve? steps copy.eventType).isNone ∧ copy.eventType = eventType)
    duplicatesRemoved := stats.duplicatesRemoved + copies.length }

namespace Plan

variable {plan : Plan} {events copies delivered : List Event}

theorem classified_redelivers (plan : Plan) (h : Redelivers events copies delivered) :
    Redelivers (plan.classified events) (plan.classified copies) (plan.classified delivered) := by
  simp only [classified, classify_eq]
  exact (h.map _).map _

theorem canonical_entries_of_redelivers (plan : Plan) (h : Redelivers events copies delivered) :
    (plan.canonical delivered).entries = (plan.canonical events).entries := by
  have hkept := Canonical.kept_eq_of_redelivers (plan.classified_redelivers h)
  simp only [canonical, Canonical.ofEvents, hkept]

theorem duplicates_of_redelivers (plan : Plan) (h : Redelivers events copies delivered) :
    (plan.canonical delivered).duplicates =
      (plan.canonical events).duplicates + copies.length := by
  have hclassified := plan.classified_redelivers h
  have hlength := hclassified.perm.length_eq
  have hcopies : (plan.classified copies).length = copies.length := by
    simp only [classified, classify_eq, List.length_map]
  rw [List.length_append, hcopies] at hlength
  have hle := Canonical.length_kept_le (plan.classified events)
  simp only [canonical, Canonical.ofEvents, Canonical.kept_eq_of_redelivers hclassified, hlength]
  omega

theorem matchedEvents_of_redelivers (plan : Plan) (h : Redelivers events copies delivered)
    (records : List AttributeRecord) :
    (plan.output delivered records).stats.matchedEvents =
      (plan.output events records).stats.matchedEvents +
        copies.countP fun copy => (Step.resolve? plan.steps copy.eventType).isSome := by
  have hcopies : ((plan.classified copies).countP fun copy => copy.stepRank.isSome) =
      copies.countP fun copy => (Step.resolve? plan.steps copy.eventType).isSome := by
    simp only [classified, classify_eq, List.countP_map, Function.comp_def, Event.classified,
      Option.isSome_map]
  rw [matchedEvents_output, matchedEvents_output, (plan.classified_redelivers h).perm.countP_eq,
    List.countP_append, hcopies, Nat.add_comm]

theorem unmappedByType_of_redelivers (plan : Plan) (h : Redelivers events copies delivered)
    (records : List AttributeRecord) :
    (plan.output delivered records).stats.unmappedByType =
      (plan.output events records).stats.unmappedByType.map fun (eventType, count) =>
        (eventType, count + copies.countP fun copy =>
          (Step.resolve? plan.steps copy.eventType).isNone ∧ copy.eventType = eventType) := by
  have hcopies : ∀ eventType, ((plan.classified copies).countP fun copy =>
      copy.stepRank.isNone ∧ copy.eventType = eventType) =
        copies.countP fun copy =>
          (Step.resolve? plan.steps copy.eventType).isNone ∧ copy.eventType = eventType := by
    intro eventType
    simp only [classified, classify_eq, List.countP_map, Function.comp_def, Event.classified,
      Option.isNone_map]
  simp only [← hcopies]
  exact Coverage.unmapped_of_redelivers plan.steps (plan.classified_redelivers h)

theorem stats_of_redelivers (plan : Plan) (h : Redelivers events copies delivered)
    (records : List AttributeRecord) :
    (plan.output delivered records).stats =
      (plan.output events records).stats.withCopies plan.steps copies := by
  obtain ⟨-, -, hstats⟩ := output_congr records (plan.canonical_entries_of_redelivers h)
  have hraw : (plan.output delivered records).stats.rawEvents =
      (plan.output events records).stats.rawEvents + copies.length := by
    show delivered.length = events.length + copies.length
    rw [h.perm.length_eq, List.length_append, Nat.add_comm]
  have hduplicates : (plan.output delivered records).stats.duplicatesRemoved =
      (plan.output events records).stats.duplicatesRemoved + copies.length :=
    plan.duplicates_of_redelivers h
  rw [hstats, hraw, hduplicates, plan.matchedEvents_of_redelivers h,
    plan.unmappedByType_of_redelivers h]
  rfl

/-- Events that come again change nothing in the entries and metrics of a run, and of its counts
only those of events: each copy is one more event and one more duplicate. -/
theorem run_redelivers (plan : Plan) (events copies delivered : List Event)
    (records : List AttributeRecord) (hredelivers : Redelivers events copies delivered)
    (h : firstDefect? events = none) :
    ∃ output again, plan.run events records = .ok output ∧
      plan.run delivered records = .ok again ∧ again.entries = output.entries ∧
      again.metrics = output.metrics ∧
      again.stats = output.stats.withCopies plan.steps copies := by
  have hdelivered : firstDefect? delivered = none :=
    firstDefect?_of_subset h fun _ => hredelivers.mem_iff.1
  obtain ⟨hentries, hmetrics, -⟩ :=
    output_congr records (plan.canonical_entries_of_redelivers hredelivers)
  exact ⟨plan.output events records, plan.output delivered records, run_eq_ok_iff.2 ⟨h, rfl⟩,
    run_eq_ok_iff.2 ⟨hdelivered, rfl⟩, hentries, hmetrics,
    plan.stats_of_redelivers hredelivers records⟩

/-- An event in a session of the shop. -/
def checkoutEvent (eventType : String) (os : String) : Event where
  user := "eve"
  session := "s1"
  eventType := eventType
  occurredAt := ⟨40⟩
  dimensions := NameMap.ofList [("os", some os)]

/-- Two events of a step come at one time with different dimensions. The first of them comes again
behind the second, and an event of no step comes twice. -/
theorem run_checkout_redelivers :
    let first := checkoutEvent "cart" "ios"
    let second := checkoutEvent "cart" "web"
    let other := checkoutEvent "scroll" "web"
    let events := [first, second, other]
    let delivered := [first, second, second, other, other]
    Redelivers events [other, second] delivered ∧ firstDefect? events = none ∧
      ∃ output again, checkout.run events [] = .ok output ∧
        checkout.run delivered [] = .ok again ∧ again.entries = output.entries ∧
        again.metrics = output.metrics ∧
        again.stats = output.stats.withCopies checkout.steps [other, second] := by
  intro first second other events delivered
  have hsecond : Redelivers events [second] [first, second, second, other] :=
    @Redelivers.again _ events [] [first, second] [other] second .once (by decide)
  have hother : Redelivers events [other, second] delivered :=
    @Redelivers.again _ events [second] [first, second, second, other] [] other hsecond (by decide)
  exact ⟨hother, by decide,
    checkout.run_redelivers events [other, second] delivered [] hother (by decide)⟩

end Plan

/-- An interleaving of acceptable lists is acceptable. -/
theorem firstDefect?_of_interleaves {left right events : List Event}
    (h : Interleaves left right events) (hleft : firstDefect? left = none)
    (hright : firstDefect? right = none) : firstDefect? events = none := by
  refine firstDefect?_eq_none_iff.2 fun event hevent => ?_
  rcases h.mem_iff.1 hevent with hmem | hmem
  · exact firstDefect?_eq_none_iff.1 hleft event hmem
  · exact firstDefect?_eq_none_iff.1 hright event hmem

namespace Plan

variable {plan : Plan} {events strangers whole : List Event}

/-- Among events that belong to a step there are none that no step claims. -/
theorem classified_filter_isSome (hinterleaves : Interleaves events strangers whole)
    (hunclaimed : ∀ stranger ∈ strangers, ∀ step ∈ plan.steps,
      stranger.eventType ∉ step.eventTypes.names) :
    ((plan.classified whole).filter fun event => event.stepRank.isSome) =
      (plan.classified events).filter fun event => event.stepRank.isSome := by
  have hclassified : Interleaves (plan.classified events) (plan.classified strangers)
      (plan.classified whole) := by
    simp only [classified, classify_eq]
    exact (hinterleaves.map _).map _
  refine hclassified.filter_eq_filter fun classified hmem => ?_
  obtain ⟨stranger, hstranger, rfl⟩ := mem_classified_iff.1 hmem
  have hnone := Step.resolve?_eq_none_iff.2 (hunclaimed stranger hstranger)
  simp only [Event.classified, hnone, Option.map_none, Option.isSome_none]

theorem canonical_entries_of_interleaves (hinterleaves : Interleaves events strangers whole)
    (hunclaimed : ∀ stranger ∈ strangers, ∀ step ∈ plan.steps,
      stranger.eventType ∉ step.eventTypes.names) :
    (plan.canonical whole).entries = (plan.canonical events).entries := by
  rw [canonical, ← Canonical.entries_filter_isSome,
    classified_filter_isSome hinterleaves hunclaimed, Canonical.entries_filter_isSome, canonical]

/-- Events that no step claims change nothing in the entries and metrics of a run, and of its counts
only those of all events, of events of no step and of duplicates. -/
theorem run_interleaves_unclaimed (plan : Plan) (events strangers whole : List Event)
    (records : List AttributeRecord) (hinterleaves : Interleaves events strangers whole)
    (hunclaimed : ∀ stranger ∈ strangers, ∀ step ∈ plan.steps,
      stranger.eventType ∉ step.eventTypes.names)
    (h : firstDefect? events = none) (hstrangers : firstDefect? strangers = none) :
    ∃ output among, plan.run events records = .ok output ∧ plan.run whole records = .ok among ∧
      among.entries = output.entries ∧ among.metrics = output.metrics ∧
      among.stats =
        { output.stats with
          rawEvents := among.stats.rawEvents
          unmappedByType := among.stats.unmappedByType
          duplicatesRemoved := among.stats.duplicatesRemoved } := by
  have hwhole : firstDefect? whole = none := firstDefect?_of_interleaves hinterleaves h hstrangers
  obtain ⟨hentries, hmetrics, hstats⟩ :=
    output_congr records (canonical_entries_of_interleaves hinterleaves hunclaimed)
  have hmatched : (plan.output whole records).stats.matchedEvents =
      (plan.output events records).stats.matchedEvents := by
    rw [matchedEvents_output, matchedEvents_output, List.countP_eq_length_filter,
      List.countP_eq_length_filter, classified_filter_isSome hinterleaves hunclaimed]
  rw [hmatched] at hstats
  exact ⟨plan.output events records, plan.output whole records, run_eq_ok_iff.2 ⟨h, rfl⟩,
    run_eq_ok_iff.2 ⟨hwhole, rfl⟩, hentries, hmetrics, hstats⟩

/-- An event whose type is the name of a step, which no step claims, comes before and between
events of that session. -/
theorem run_checkout_interleaves_unclaimed :
    let stranger := checkoutEvent "Home" "tv"
    let events := [checkoutEvent "home" "ios", checkoutEvent "cart" "web"]
    let whole := [stranger, checkoutEvent "home" "ios", stranger, checkoutEvent "cart" "web"]
    Interleaves events [stranger, stranger] whole ∧
      (∀ other ∈ [stranger, stranger], ∀ step ∈ checkout.steps,
        other.eventType ∉ step.eventTypes.names) ∧
      firstDefect? events = none ∧ firstDefect? [stranger, stranger] = none ∧
      ∃ output among, checkout.run events [] = .ok output ∧ checkout.run whole [] = .ok among ∧
        among.entries = output.entries ∧ among.metrics = output.metrics ∧
        among.stats =
          { output.stats with
            rawEvents := among.stats.rawEvents
            unmappedByType := among.stats.unmappedByType
            duplicatesRemoved := among.stats.duplicatesRemoved } := by
  intro stranger events whole
  have hinterleaves : Interleaves events [stranger, stranger] whole :=
    .right (.left (.right (.left .nil)))
  have hunclaimed : ∀ other ∈ [stranger, stranger], ∀ step ∈ checkout.steps,
      other.eventType ∉ step.eventTypes.names := by decide
  exact ⟨hinterleaves, hunclaimed, by decide, by decide,
    checkout.run_interleaves_unclaimed events _ whole [] hinterleaves hunclaimed (by decide)
      (by decide)⟩

end Plan

end Funnel
