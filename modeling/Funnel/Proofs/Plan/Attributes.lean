import Mathlib
import Funnel.Proofs.NameMap
import Funnel.Proofs.Plan.Conservative
import Funnel.Proofs.Plan.Reordering

/-!
# Where the dimensions of a session come from

A session takes the value of a dimension from the events that stand for its steps. What an earlier
event of a step carries is dropped with the event, so that the records may fill a dimension that
only such an event set.
-/

namespace Funnel

open Std Time

namespace Event

/-- The key of precedence among the events that show a step: the later event, then the greater
type. -/
def precedence (event : Event) : Instant × String :=
  (event.occurredAt, event.eventType)

instance (steps : List Step) (key : String × String) (rank : UInt32) (event : Event) :
    Decidable (event.Shows steps key rank) :=
  inferInstanceAs (Decidable (_ ∧ _))

/-- An event stands for the step of a rank in a session: of the events that show it, it is the first
of greatest precedence. -/
def StandsFor (steps : List Step) (events : List Event) (key : String × String) (rank : UInt32)
    (event : Event) : Prop :=
  firstMaxOn? precedence (events.filter fun other => other.Shows steps key rank) = some event

end Event

namespace Plan

variable {plan : Plan} {events : List Event} {records : List AttributeRecord}
  {key : String × String} {name : String}

/-- An event with its step, as a run classifies it. -/
def classifiedEvent (plan : Plan) (event : Event) : ClassifiedEvent :=
  { event with dimensions := event.dimensions.restrict plan.dimensions }.classified
    (Step.resolve? plan.steps event.eventType)

theorem classified_eq_map (plan : Plan) (events : List Event) :
    plan.classified events = events.map plan.classifiedEvent := by
  rw [Plan.classified, classify_eq, List.map_map]
  rfl

/-- The events of the slot of a step are those that show the step. -/
theorem slot_classifiedEvent_eq_iff {chosen : ClassifiedEvent} {rank : UInt32} {event : Event}
    (hchosen : chosen ∈ plan.classified events) (hrank : chosen.stepRank = some rank)
    (hevent : event ∈ events) :
    (plan.classifiedEvent event).slot = chosen.slot ↔
      event.Shows plan.steps (chosen.user, chosen.session) rank := by
  have hmem : plan.classifiedEvent event ∈ plan.classified events :=
    mem_classified_iff.2 ⟨event, hevent, rfl⟩
  constructor
  · intro hslot
    simp only [ClassifiedEvent.slot, Prod.mk.injEq] at hslot
    obtain ⟨huser, hsession, -, hstep⟩ := hslot
    exact ⟨Prod.ext huser hsession, hstep.trans hrank⟩
  · rintro ⟨hkey, hshown⟩
    have hranks : (plan.classifiedEvent event).stepRank = chosen.stepRank :=
      hshown.trans hrank.symm
    have hnames := stepName_eq_of_mem_classified hmem hchosen (by rw [hranks, hrank]; rfl) hranks
    obtain ⟨huser, hsession⟩ := Prod.mk.inj hkey
    simp only [ClassifiedEvent.slot, Prod.mk.injEq]
    exact ⟨huser, hsession, hnames, hranks⟩

/-- An entry of the events is made of the event that stands for its step. -/
theorem exists_standsFor_of_mem_canonical {entry : Entry}
    (h : entry ∈ (plan.canonical events).entries) :
    ∃ event : Event, event.StandsFor plan.steps events entry.sessionKey entry.stepRank ∧
      entry.enteredAt = event.occurredAt ∧
      entry.dimensions = event.dimensions.restrict plan.dimensions := by
  obtain ⟨chosen, hkept, hentry⟩ := Canonical.mem_entries_iff.1 h
  obtain ⟨hrank, heq⟩ := ClassifiedEvent.enters?_eq_some_iff.1 hentry
  have hslot : ∀ event ∈ events, decide ((plan.classifiedEvent event).slot = chosen.slot) =
      decide (event.Shows plan.steps (chosen.user, chosen.session) entry.stepRank) :=
    fun event hevent => decide_eq_decide.2
      (slot_classifiedEvent_eq_iff (Canonical.mem_of_mem_kept hkept) hrank hevent)
  have hfirst := Canonical.mem_kept_iff.1 hkept
  rw [classified_eq_map, List.filter_map, firstMaxOn?_map] at hfirst
  obtain ⟨event, hevent, rfl⟩ := Option.map_eq_some_iff.1 hfirst
  rw [heq]
  refine ⟨event, ?_, rfl, rfl⟩
  exact (congrArg (firstMaxOn? Event.precedence) (List.filter_congr hslot).symm).trans hevent

/-- The event that stands for a step makes an entry. -/
theorem exists_mem_canonical_of_standsFor {rank : UInt32} {event : Event}
    (h : event.StandsFor plan.steps events key rank) :
    ∃ entry ∈ (plan.canonical events).entries, entry.cell = (key, rank) ∧
      entry.enteredAt = event.occurredAt ∧
      entry.dimensions = event.dimensions.restrict plan.dimensions := by
  obtain ⟨hevent, hshows⟩ := List.mem_filter.1 (mem_of_firstMaxOn? h)
  obtain ⟨entry, hentry, hcell⟩ :=
    exists_mem_canonical ⟨event.occurredAt, event, hevent, of_decide_eq_true hshows, rfl⟩
  obtain ⟨other, hother, hsame⟩ := exists_standsFor_of_mem_canonical hentry
  obtain ⟨rfl, rfl⟩ := Prod.mk.inj hcell
  obtain rfl : other = event := Option.some.inj (hother.symm.trans h)
  exact ⟨entry, hentry, hcell, hsame⟩

/-- A session has a value for a dimension. -/
structure IsAttributed (plan : Plan) (events : List Event) (records : List AttributeRecord)
    (key : String × String) (name : String) (value : Option String) : Prop where
  /-- If events that stand for steps of the session set the dimension, then it has the value that
  the first of these carries, by time and then by rank. -/
  observed : (∃ rank event, Event.StandsFor plan.steps events key rank event ∧
      (event.dimensions.value name).isSome) →
    ∃ rank event, Event.StandsFor plan.steps events key rank event ∧
      (event.dimensions.value name).isSome ∧ event.dimensions.value name = value ∧
      ∀ otherRank other, Event.StandsFor plan.steps events key otherRank other →
        (other.dimensions.value name).isSome →
          event.occurredAt < other.occurredAt ∨
            event.occurredAt = other.occurredAt ∧ rank ≤ otherRank
  /-- If none of them does, then it has the value that the record of the session says, if any. -/
  lookedUp : (∀ rank event, Event.StandsFor plan.steps events key rank event →
      event.dimensions.value name = none) →
    value = (AttributeRecord.lookup? plan.selection records key).bind
      fun record => record.values.value name

theorem value_sessionMap (hname : name ∈ plan.dimensions) :
    (plan.sessionMap events records key).value name =
      Entry.sessionValue plan.selection records (plan.canonical events).entries key name := by
  rw [sessionMap_eq, Entry.dimensionsOf_eq, Dimensions.value_ofNames hname]

/-- The dimension map of a session says what its events and records do. -/
theorem isAttributed_sessionMap (hname : name ∈ plan.dimensions) :
    plan.IsAttributed events records key name
      ((plan.sessionMap events records key).value name) := by
  let session := Entry.ofSession key (plan.canonical events).entries
  have hvalue : ∀ {entry : Entry} {event : Event},
      entry.dimensions = event.dimensions.restrict plan.dimensions →
        entry.dimensions.value name = event.dimensions.value name := fun h => by
    rw [h]
    exact Dimensions.value_ofNames hname
  rw [value_sessionMap hname]
  unfold Entry.sessionValue
  -- entries stand for the events of their session, which are searched through them
  cases hfind : (sortOn Entry.position session).findSome?
      fun entry => entry.dimensions.value name with
  | none =>
    have hunset : ∀ rank event, Event.StandsFor plan.steps events key rank event →
        event.dimensions.value name = none := by
      intro rank event hstands
      obtain ⟨entry, hentry, hcell, -, hdimensions⟩ := exists_mem_canonical_of_standsFor hstands
      rw [← hvalue hdimensions]
      exact List.findSome?_eq_none_iff.1 hfind entry
        (mem_sortOn.2 (Entry.mem_ofSession.2 ⟨hentry, congrArg Prod.fst hcell⟩))
    refine ⟨?_, fun _ => rfl⟩
    rintro ⟨rank, event, hstands, hset⟩
    rw [hunset rank event hstands] at hset
    cases hset
  | some value =>
    obtain ⟨entry, hmem, hentry_value, hfirst⟩ := exists_first_of_findSome?_sortOn hfind
    obtain ⟨hentry, hkey⟩ := Entry.mem_ofSession.1 hmem
    obtain ⟨event, hstands, htime, hdimensions⟩ := exists_standsFor_of_mem_canonical hentry
    rw [hkey] at hstands
    have hevent_value : event.dimensions.value name = some value := by
      rw [← hvalue hdimensions, hentry_value]
    refine ⟨fun _ => ⟨entry.stepRank, event, hstands, by rw [hevent_value]; rfl, hevent_value, ?_⟩,
      fun hunset => ?_⟩
    · intro rank other hother hset
      obtain ⟨later, hlater, hcell, hlater_time, hlater_dimensions⟩ :=
        exists_mem_canonical_of_standsFor hother
      obtain ⟨hlater_key, rfl⟩ := Prod.mk.inj hcell
      rw [← hvalue hlater_dimensions] at hset
      rw [← htime, ← hlater_time]
      exact Entry.enteredAt_lt_or_of_position_le
        (hfirst later (Entry.mem_ofSession.2 ⟨hlater, hlater_key⟩) hset)
    · rw [hunset _ event hstands] at hevent_value
      cases hevent_value

/-- In a run every entry has, for each declared dimension, the value that its session takes from the
events that stand for its steps, or else from the records. -/
theorem run_isAttributed (plan : Plan) (events : List Event) (records : List AttributeRecord)
    (h : firstDefect? events = none) :
    ∃ output, plan.run events records = .ok output ∧
      ∀ entry ∈ output.entries, ∀ name ∈ plan.dimensions,
        plan.IsAttributed events records entry.sessionKey name (entry.dimensions.value name) := by
  refine ⟨plan.output events records, run_eq_ok_iff.2 ⟨h, rfl⟩, fun entry hentry name hname => ?_⟩
  rw [dimensions_of_mem_entries hentry]
  exact isAttributed_sessionMap hname

/-- Two visits to the first step of the shop, of which the later one does not say what the earlier
one does. -/
def returningEvents : List Event :=
  [{ user := "ann", session := "s1", eventType := "home", occurredAt := ⟨10⟩,
      dimensions := NameMap.ofList [("os", some "ios")] },
    { user := "ann", session := "s1", eventType := "home", occurredAt := ⟨20⟩,
      dimensions := .empty }]

theorem run_returning_isAttributed :
    firstDefect? returningEvents = none ∧
      ∃ output, checkout.run returningEvents [checkoutRecord] = .ok output ∧
        ∀ entry ∈ output.entries, ∀ name ∈ checkout.dimensions,
          checkout.IsAttributed returningEvents [checkoutRecord] entry.sessionKey name
            (entry.dimensions.value name) :=
  ⟨by decide, checkout.run_isAttributed returningEvents [checkoutRecord] (by decide)⟩

/-- The value that an event of the session carries is not that of its entry, and no event carries
the one that is: only the later visit stands for the step, so that the record fills what it leaves
unset. -/
theorem run_checkout_replaced :
    ∃ output, checkout.run returningEvents [checkoutRecord] = .ok output ∧
      output.entries.map (fun entry => (entry.sessionKey, entry.dimensions.value "os")) =
        [(("ann", "s1"), some "web")] ∧
      (∃ event ∈ returningEvents, event.Shows checkout.steps ("ann", "s1") 1 ∧
        event.dimensions.value "os" = some "ios") ∧
      ∀ event ∈ returningEvents, event.dimensions.value "os" ≠ some "web" := by
  have hentries : (checkout.entries returningEvents [checkoutRecord]).map
      (fun entry => (entry.sessionKey, entry.dimensions.value "os")) =
        [(("ann", "s1"), some "web")] := by cbv
  have hhome : (Step.resolve? checkout.steps "home").map Step.rank = some 1 := by cbv
  exact ⟨_, run_eq_ok_iff.2 ⟨by decide, rfl⟩, hentries,
    ⟨_, List.mem_cons_self .., ⟨rfl, hhome⟩, by decide⟩, by decide⟩

end Plan

end Funnel
