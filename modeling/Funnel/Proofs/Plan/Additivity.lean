import Funnel.Proofs.Interleaving
import Funnel.Proofs.Event.Coverage
import Funnel.Proofs.Metric.Tally
import Funnel.Proofs.Plan.Counts
import Funnel.Proofs.Plan.Isolation

/-!
# Counts add up over users

A run on the events of some users and a run on those of all others give counts that add up to those
of a run on all events, however the events are interleaved.
-/

namespace Funnel

/-- The number of events of a type that belong to no step. -/
def RunStats.unmappedOf (stats : RunStats) (eventType : String) : Nat :=
  (stats.unmappedByType.lookup eventType).getD 0

/-- The counts of some results are sums of the counts of two others. -/
structure RunOutput.AddsUp (whole left right : RunOutput) : Prop where
  /-- The counts at a row are those of every metric that stands there. -/
  rows : ∀ output ∈ [whole, left, right], ∀ metric ∈ output.metrics, ∀ row, metric.IsAt row →
    Metric.tallyAt output.metrics row = metric.tally
  /-- At every row of every combination, the numbers of those who start it, complete it and drop
  off are sums; a row that is not there counts nobody. -/
  counts : ∀ row, Metric.tallyAt whole.metrics row =
    Metric.tallyAt left.metrics row + Metric.tallyAt right.metrics row
  rawEvents : whole.stats.rawEvents = left.stats.rawEvents + right.stats.rawEvents
  matchedEvents :
    whole.stats.matchedEvents = left.stats.matchedEvents + right.stats.matchedEvents
  unmapped : ∀ eventType, whole.stats.unmappedOf eventType =
    left.stats.unmappedOf eventType + right.stats.unmappedOf eventType
  duplicatesRemoved :
    whole.stats.duplicatesRemoved = left.stats.duplicatesRemoved + right.stats.duplicatesRemoved
  backfilledEntries :
    whole.stats.backfilledEntries = left.stats.backfilledEntries + right.stats.backfilledEntries
  entries : whole.stats.entries = left.stats.entries + right.stats.entries
  sessions : whole.stats.sessions = left.stats.sessions + right.stats.sessions
  users : whole.stats.users = left.stats.users + right.stats.users

namespace Plan

variable {plan : Plan} {events : List Event} {records : List AttributeRecord}

theorem matchedEvents_output (plan : Plan) (events : List Event) (records : List AttributeRecord) :
    (plan.output events records).stats.matchedEvents =
      (plan.classified events).countP fun event => event.stepRank.isSome := by
  refine Coverage.matchedCount_eq fun event hevent rank hrank => ?_
  obtain ⟨step, hstep, heq, -⟩ := exists_step_of_mem_classified hevent hrank
  exact ⟨step, hstep, heq⟩

theorem unmappedOf_output (plan : Plan) (events : List Event) (records : List AttributeRecord)
    (eventType : String) :
    (plan.output events records).stats.unmappedOf eventType =
      (plan.classified events).countP fun event =>
        event.stepRank.isNone ∧ event.eventType = eventType :=
  Coverage.lookup_unmapped plan.steps (plan.classified events) eventType

theorem canonical_sublist_filled (plan : Plan) (events : List Event) :
    (plan.canonical events).entries.Sublist (plan.filled events) := by
  unfold filled
  by_cases hfill : plan.config.backfill = true
  · simp only [hfill, if_true]
    exact List.sublist_append_left ..
  · simp only [hfill]
    exact List.Sublist.refl _

section Users

variable (plan : Plan) (q : String → Bool) (events : List Event) (records : List AttributeRecord)

theorem classified_filter_user :
    plan.classified (events.filter fun event => q event.user) =
      (plan.classified events).filter fun event => q event.user :=
  classified_filter (fun key => q key.1) events

theorem entries_filter_user :
    plan.entries (events.filter fun event => q event.user) records =
      (plan.entries events records).filter fun entry => q entry.user :=
  plan.entries_filter (fun key => q key.1) events records

theorem backfilledEntries_filter_add :
    (plan.output events records).stats.backfilledEntries =
      (plan.output (events.filter fun event => q event.user) records).stats.backfilledEntries +
        (plan.output (events.filter fun event => !q event.user)
          records).stats.backfilledEntries := by
  have hfilled : ∀ q : String → Bool, plan.filled (events.filter fun event => q event.user) =
      (plan.filled events).filter fun entry => q entry.user :=
    fun q => filled_filter (fun key => q key.1) events
  have hcanonical : ∀ q : String → Bool,
      (plan.canonical (events.filter fun event => q event.user)).entries =
        (plan.canonical events).entries.filter fun entry => q entry.user :=
    fun q => canonical_entries_filter (fun key => q key.1) events
  -- in neither part are there more entries before filling than behind it
  have hsublist := plan.canonical_sublist_filled events
  have hleft := (hsublist.filter fun entry => q entry.user).length_le
  have hright := (hsublist.filter fun entry => !q entry.user).length_le
  have hfilled_length := List.length_eq_length_filter_add (l := plan.filled events)
    fun entry => q entry.user
  have hcanonical_length := List.length_eq_length_filter_add
    (l := (plan.canonical events).entries) fun entry => q entry.user
  simp only [output, hfilled, hcanonical, hfilled fun user => !q user,
    hcanonical fun user => !q user]
  omega

/-- The counts of a run add up over the events of some users and of all others. -/
theorem addsUp_output :
    (plan.output events records).AddsUp
      (plan.output (events.filter fun event => q event.user) records)
      (plan.output (events.filter fun event => !q event.user) records) where
  rows := by
    have hrows : ∀ events, ∀ metric ∈ (plan.output events records).metrics, ∀ row,
        metric.IsAt row → Metric.tallyAt (plan.output events records).metrics row = metric.tally :=
      fun _ _ hmetric _ hrow => Metric.tallyAt_eq_of_isAt hrow hmetric
        (fun _ => exists_step_of_mem_entries) fun _ => one_le_stepRank
    simpa using ⟨hrows _, hrows _, hrows _⟩
  counts row := by
    -- the entries of a run on the events of some users are those of the whole run with these users
    simp only [output, entries_filter_user, plan.entries_filter_user fun user => !q user]
    exact Metric.tallyAt_filter_add plan.dimensions
      (fun _ => exists_step_of_mem_entries) (fun _ => one_le_stepRank) q row
  rawEvents := List.length_eq_length_filter_add _
  matchedEvents := by
    rw [matchedEvents_output, matchedEvents_output, matchedEvents_output, classified_filter_user,
      plan.classified_filter_user fun user => !q user]
    exact List.countP_eq_countP_filter_add ..
  unmapped eventType := by
    rw [unmappedOf_output, unmappedOf_output, unmappedOf_output, classified_filter_user,
      plan.classified_filter_user fun user => !q user]
    exact List.countP_eq_countP_filter_add ..
  duplicatesRemoved := by
    simp only [output, canonical, classified_filter_user,
      plan.classified_filter_user fun user => !q user]
    exact Canonical.duplicates_filter_add (fun key => q key.1) _
  backfilledEntries := plan.backfilledEntries_filter_add q events records
  entries := by
    simp only [output, entries_filter_user, plan.entries_filter_user fun user => !q user]
    exact List.length_eq_length_filter_add _
  sessions := by
    simp only [output, entries_filter_user, plan.entries_filter_user fun user => !q user,
      Journey.ofSessions_filter, Journey.ofSessions_filter fun user => !q user]
    exact List.length_eq_length_filter_add _
  users := by
    simp only [output, entries_filter_user, plan.entries_filter_user fun user => !q user,
      Journey.ofUsers_filter, Journey.ofUsers_filter fun user => !q user]
    exact List.length_eq_length_filter_add _

end Users

/-- The counts of a run on an interleaving of events without common users are the sums of the counts
of the runs on each of them. -/
theorem run_interleaves_addsUp (plan : Plan) (left right events : List Event)
    (records : List AttributeRecord) (hinterleaves : Interleaves left right events)
    (hdisjoint : ∀ a ∈ left, ∀ b ∈ right, a.user ≠ b.user)
    (hleft : firstDefect? left = none) (hright : firstDefect? right = none) :
    ∃ whole a b, plan.run events records = .ok whole ∧ plan.run left records = .ok a ∧
      plan.run right records = .ok b ∧ whole.AddsUp a b := by
  have hevents : firstDefect? events = none := by
    refine firstDefect?_eq_none_iff.2 fun event hevent => ?_
    rcases hinterleaves.mem_iff.1 hevent with hmem | hmem
    · exact firstDefect?_eq_none_iff.1 hleft event hmem
    · exact firstDefect?_eq_none_iff.1 hright event hmem
  refine ⟨plan.output events records, plan.output left records, plan.output right records,
    run_eq_ok_iff.2 ⟨hevents, rfl⟩, run_eq_ok_iff.2 ⟨hleft, rfl⟩, run_eq_ok_iff.2 ⟨hright, rfl⟩, ?_⟩
  -- the users of the first events tell them from the second ones
  have hmem : ∀ event ∈ left, decide (event.user ∈ left.map Event.user) = true :=
    fun event hevent => decide_eq_true (List.mem_map_of_mem hevent)
  have hnot : ∀ event ∈ right, decide (event.user ∈ left.map Event.user) = false := by
    refine fun event hevent => decide_eq_false fun h => ?_
    obtain ⟨other, hother, heq⟩ := List.mem_map.1 h
    exact hdisjoint other hother event hevent heq
  have hadds := plan.addsUp_output (fun user => user ∈ left.map Event.user) events records
  rwa [hinterleaves.filter_eq_left hmem hnot, hinterleaves.filter_eq_right hmem hnot] at hadds

theorem run_checkout_interleaves_addsUp :
    let events := checkoutEvents.rotate 3
    let left := events.filter fun event => event.user = "ann"
    let right := events.filter fun event => !decide (event.user = "ann")
    Interleaves left right events ∧ (∀ a ∈ left, ∀ b ∈ right, a.user ≠ b.user) ∧
      firstDefect? left = none ∧ firstDefect? right = none ∧
      ∃ whole a b, checkout.run events [] = .ok whole ∧ checkout.run left [] = .ok a ∧
        checkout.run right [] = .ok b ∧ whole.AddsUp a b := by
  have hinterleaves :=
    Interleaves.of_filter (fun event : Event => event.user = "ann") (checkoutEvents.rotate 3)
  exact ⟨hinterleaves, by decide, by decide, by decide,
    checkout.run_interleaves_addsUp _ _ _ [] hinterleaves (by decide) (by decide) (by decide)⟩

end Plan

end Funnel
