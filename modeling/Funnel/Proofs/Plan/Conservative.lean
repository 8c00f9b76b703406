import Funnel.Proofs.Metric.Counts
import Funnel.Proofs.Plan.Relation

/-!
# Filling in skipped steps adds and changes nothing

Entries that are filled in stand at times at which their session reaches a higher rank anyway. So
they neither change where another entry goes on nor how far a session gets, and only add users to
steps.
-/

namespace Funnel

open Std Time

/-- An entry apart from the name of the step before it. -/
def Entry.withoutPrevious (entry : Entry) : Entry :=
  { entry with previousStep := none }

namespace Plan

/-- The plan with skipped steps filled in or not. -/
def withBackfill (plan : Plan) (fill : Bool) : Plan where
  config := plan.config.withBackfill fill
  accepted := Config.check_withBackfill plan.accepted fill
  periodDays := plan.periodDays

variable {plan : Plan} {events : List Event} {records : List AttributeRecord}
  {key : String × String}

/-- The dimension map of a session is read off the entries of its events. -/
theorem sessionMap_eq (plan : Plan) (events : List Event) (records : List AttributeRecord)
    (key : String × String) :
    plan.sessionMap events records key =
      Entry.dimensionsOf plan.dimensions plan.selection records (plan.canonical events).entries
        key := by
  unfold sessionMap sequenced filled
  rw [Entry.dimensionsOf_sequence]
  by_cases hfill : plan.config.backfill = true
  · simp only [hfill, if_true]
    exact Entry.dimensionsOf_backfill plan.nodup_ranks (plan.nodup_cell_canonical events)
      fun _ hentry => (Canonical.plain_of_mem_entries hentry).2
  · simp only [hfill]
    rfl

theorem sessionMap_withBackfill (fill : Bool) :
    (plan.withBackfill fill).sessionMap events records key =
      plan.sessionMap events records key := by
  rw [sessionMap_eq, sessionMap_eq]
  rfl

theorem reaches_withBackfill_false_iff {rank : UInt32} {time : Instant} {added : Bool} :
    (plan.withBackfill false).Reaches events key rank time added ↔
      added = false ∧ IsGreatest (shownTimes plan.steps events key rank) time := by
  constructor
  · intro h
    cases h with
    | shown latest => exact ⟨rfl, latest⟩
    | skipped filling => cases filling
  · rintro ⟨rfl, latest⟩
    exact .shown latest

theorem Reaches.withBackfill_true {rank : UInt32} {time : Instant} {added : Bool}
    (h : (plan.withBackfill false).Reaches events key rank time added) :
    (plan.withBackfill true).Reaches events key rank time false :=
  .shown (reaches_withBackfill_false_iff.1 h).2

/-- What a session reaches with filling in, it reaches without it at the same time and rank, or if
it is filled in, at the same time and a higher rank. -/
theorem Reaches.exists_withBackfill_false {rank : UInt32} {time : Instant} {added : Bool}
    (h : (plan.withBackfill true).Reaches events key rank time added) :
    ∃ higher, rank ≤ higher ∧ (added = false → rank = higher) ∧
      (plan.withBackfill false).Reaches events key higher time false := by
  cases h with
  | shown latest => exact ⟨rank, Std.le_refl rank, fun _ => rfl, .shown latest⟩
  | skipped _ _ _ earliest =>
    obtain ⟨higher, hlt, latest⟩ := earliest.1
    exact ⟨higher, Std.le_of_lt hlt, nofun, .shown latest⟩

/-- Filling in skipped steps changes nothing about when a session goes on. -/
theorem onwardTimes_withBackfill (plan : Plan) (events : List Event) (key : String × String)
    (rank : UInt32) (time : Instant) :
    (plan.withBackfill true).onwardTimes events key rank time =
      (plan.withBackfill false).onwardTimes events key rank time := by
  ext later
  constructor
  · rintro ⟨other, added, hreaches, hbehind, hhigher⟩
    obtain ⟨higher, hle, -, hreaches⟩ := hreaches.exists_withBackfill_false
    refine ⟨higher, false, hreaches, ?_, fun hmode => Std.lt_of_lt_of_le (hhigher hmode) hle⟩
    exact hbehind.imp_right fun h => ⟨h.1, Std.lt_of_lt_of_le h.2 hle⟩
  · rintro ⟨other, added, hreaches, hbehind⟩
    exact ⟨other, false, hreaches.withBackfill_true, hbehind⟩

/-- An entry of the events is the same in both runs, apart from the name of the step before it. -/
theorem withoutPrevious_eq {entry entry' : Entry}
    (h : entry ∈ (plan.withBackfill false).entries events records)
    (h' : entry' ∈ (plan.withBackfill true).entries events records)
    (hcell : entry'.cell = entry.cell) (hadded : entry'.backfilled = false) :
    entry'.withoutPrevious = entry.withoutPrevious := by
  have hrelation := (plan.withBackfill false).isRelation_entries events records
  have hrelation' := (plan.withBackfill true).isRelation_entries events records
  obtain ⟨hkey, hrank⟩ := Prod.mk.inj hcell
  obtain ⟨huser, hsession⟩ := Prod.mk.inj hkey
  obtain ⟨hreaches, step, hstep, hstep_rank, hname⟩ := hrelation.sound entry h
  obtain ⟨hreaches', step', hstep', hstep_rank', hname'⟩ := hrelation'.sound entry' h'
  have hshown := (reaches_withBackfill_false_iff.1 hreaches).1
  rw [hkey, hrank] at hreaches'
  have htime : entry'.enteredAt = entry.enteredAt :=
    (hreaches'.unique hreaches.withBackfill_true).1
  have hname : entry'.stepName = entry.stepName := by
    have hsame : step' = step := List.inj_on_of_nodup_map plan.nodup_ranks hstep' hstep
      (hstep_rank'.trans (hrank.trans hstep_rank.symm))
    rw [← hname, ← hname', hsame]
  have hdimensions : entry'.dimensions = entry.dimensions := by
    rw [dimensions_of_mem_entries h, dimensions_of_mem_entries h', hkey, sessionMap_withBackfill,
      sessionMap_withBackfill]
  -- both times are the least of the same set, and the rest is computed from them
  have hnext : entry'.nextEnteredAt = entry.nextEnteredAt := by
    refine Option.ext fun time => ?_
    rw [nextEnteredAt_of_mem_entries h, nextEnteredAt_of_mem_entries h', hkey, hrank, htime,
      onwardTimes_withBackfill]
  have hconverted : entry'.converted = entry.converted := by
    rw [hrelation.converted entry h, hrelation'.converted entry' h', hnext]
  have hseconds : entry'.secondsToConvert = entry.secondsToConvert := by
    rw [hrelation.seconds entry h, hrelation'.seconds entry' h', hnext, htime]
  simp only [Entry.withoutPrevious, huser, hsession, hname, hrank, htime, hdimensions, hnext,
    hconverted, hseconds, hadded, hshown]

theorem exists_mem_withBackfill_true {entry : Entry}
    (h : entry ∈ (plan.withBackfill false).entries events records) :
    ∃ entry' ∈ (plan.withBackfill true).entries events records, entry'.backfilled = false ∧
      entry'.withoutPrevious = entry.withoutPrevious := by
  have hrelation' := (plan.withBackfill true).isRelation_entries events records
  have hreaches := (((plan.withBackfill false).isRelation_entries events records).sound entry h).1
  obtain ⟨entry', ⟨hentry', hkey, hrank⟩, -⟩ :=
    hrelation'.complete _ _ _ _ hreaches.withBackfill_true
  have hreaches' := (hrelation'.sound entry' hentry').1
  rw [hkey, hrank] at hreaches'
  have hadded := (hreaches'.unique hreaches.withBackfill_true).2
  exact ⟨entry', hentry', hadded, withoutPrevious_eq h hentry' (Prod.ext hkey hrank) hadded⟩

/-- Every entry with filling in stands at the time of one without it, which has the same rank if it
is not filled in, and a higher one if it is. -/
theorem exists_mem_withBackfill_false {entry' : Entry}
    (h' : entry' ∈ (plan.withBackfill true).entries events records) :
    ∃ entry ∈ (plan.withBackfill false).entries events records,
      entry.journeyKey = entry'.journeyKey ∧ entry.enteredAt = entry'.enteredAt ∧
        entry'.stepRank ≤ entry.stepRank ∧
        (entry'.backfilled = false → entry'.withoutPrevious = entry.withoutPrevious) := by
  have hrelation := (plan.withBackfill false).isRelation_entries events records
  have hreaches' := (((plan.withBackfill true).isRelation_entries events records).sound entry' h').1
  obtain ⟨higher, hle, hsame, hreaches⟩ := hreaches'.exists_withBackfill_false
  obtain ⟨entry, ⟨hentry, hkey, rfl⟩, -⟩ := hrelation.complete _ _ _ _ hreaches
  have hreaches'' := (hrelation.sound entry hentry).1
  rw [hkey] at hreaches''
  have hdimensions : entry.dimensions = entry'.dimensions := by
    rw [dimensions_of_mem_entries hentry, dimensions_of_mem_entries h', hkey,
      sessionMap_withBackfill, sessionMap_withBackfill]
  obtain ⟨huser, hsession⟩ := Prod.mk.inj hkey
  refine ⟨entry, hentry, ?_, (hreaches''.unique hreaches).1, hle, fun hadded => ?_⟩
  · rw [Entry.journeyKey, huser, hsession, hdimensions, Entry.journeyKey]
  · exact withoutPrevious_eq hentry h' (Prod.ext hkey.symm (hsame hadded)) hadded

/-- The entries that are not filled in are those of a run without filling in, in the same order. -/
theorem map_withoutPrevious_entries (plan : Plan) (events : List Event)
    (records : List AttributeRecord) :
    (((plan.withBackfill true).entries events records).filter
        fun entry => !entry.backfilled).map Entry.withoutPrevious =
      ((plan.withBackfill false).entries events records).map Entry.withoutPrevious := by
  have hasc : Ascending Entry.place
      (((plan.withBackfill false).entries events records).map Entry.withoutPrevious) :=
    Ascending.map.2 ((plan.withBackfill false).isRelation_entries events records).ordered
  have hasc' : Ascending Entry.place
      ((((plan.withBackfill true).entries events records).filter
        fun entry => !entry.backfilled).map Entry.withoutPrevious) :=
    Ascending.map.2
      (((plan.withBackfill true).isRelation_entries events records).ordered.filter _)
  refine hasc'.eq_of_mem_iff hasc fun entry => ?_
  rw [List.mem_map, List.mem_map]
  constructor
  · rintro ⟨entry', hmem, rfl⟩
    obtain ⟨hentry', hadded⟩ := List.mem_filter.1 hmem
    obtain ⟨entry, hentry, -, -, -, heq⟩ := exists_mem_withBackfill_false hentry'
    exact ⟨entry, hentry, (heq (by simpa using hadded)).symm⟩
  · rintro ⟨entry, hentry, rfl⟩
    obtain ⟨entry', hentry', hadded, heq⟩ := exists_mem_withBackfill_true hentry
    exact ⟨entry', List.mem_filter.2 ⟨hentry', by rw [hadded]; rfl⟩, heq⟩

/-- Filling in skipped steps loses no user, whatever is asked of their entries. -/
theorem usersWhere_withBackfill_subset (plan : Plan) (events : List Event)
    (records : List AttributeRecord) {p : Entry → Prop}
    (hp : ∀ entry, p entry.withoutPrevious ↔ p entry) :
    Entry.usersWhere ((plan.withBackfill false).entries events records) p ⊆
      Entry.usersWhere ((plan.withBackfill true).entries events records) p := by
  rintro _ ⟨entry, hentry, hentry_p, rfl⟩
  obtain ⟨entry', hentry', -, heq⟩ := exists_mem_withBackfill_true hentry
  refine ⟨entry', hentry', ?_, congrArg (fun e => e.user) heq⟩
  rw [← hp, heq, hp]
  exact hentry_p

theorem combinations_withBackfill (plan : Plan) (events : List Event)
    (records : List AttributeRecord) :
    Metric.combinationsOf plan.dimensions ((plan.withBackfill true).entries events records) =
      Metric.combinationsOf plan.dimensions
        ((plan.withBackfill false).entries events records) := by
  let entries := (plan.withBackfill false).entries events records
  let entries' := (plan.withBackfill true).entries events records
  -- every entry has one of its combination in the other run
  have hsome : ∀ dimensions, (∃ entry' ∈ entries', entry'.dimensions = dimensions) ↔
      ∃ entry ∈ entries, entry.dimensions = dimensions := by
    intro dimensions
    constructor
    · rintro ⟨entry', hentry', rfl⟩
      obtain ⟨entry, hentry, hkey, -⟩ := exists_mem_withBackfill_false hentry'
      exact ⟨entry, hentry, congrArg (fun key => key.2.2) hkey⟩
    · rintro ⟨entry, hentry, rfl⟩
      obtain ⟨entry', hentry', -, heq⟩ := exists_mem_withBackfill_true hentry
      exact ⟨entry', hentry', congrArg (fun e => e.dimensions) heq⟩
  have hnil : entries' = [] ↔ entries = [] := by
    simp only [List.eq_nil_iff_forall_not_mem]
    constructor
    · intro h entry hentry
      obtain ⟨entry', hentry', -⟩ := exists_mem_withBackfill_true hentry
      exact h entry' hentry'
    · intro h entry' hentry'
      obtain ⟨entry, hentry, -⟩ := exists_mem_withBackfill_false hentry'
      exact h entry hentry
  refine (Metric.ascending_combinationsOf _ _).eq_of_mem_iff
    (Metric.ascending_combinationsOf _ _) fun dimensions => ?_
  rw [Metric.mem_combinationsOf, Metric.mem_combinationsOf, hsome, hnil]

/-- Filling in skipped steps is conservative. Of two runs on the same events, one with and one
without it, the first has all entries of the second, in the same order and the same but for the
name of the step before, and marks the others as filled in; the journeys of sessions cover the same
span and end at the same step; and no count of a step is smaller in the first. -/
theorem run_withBackfill_conservative (plan : Plan) (events : List Event)
    (records : List AttributeRecord) (h : firstDefect? events = none) :
    ∃ plain filled,
      (plan.withBackfill false).run events records = .ok plain ∧
      (plan.withBackfill true).run events records = .ok filled ∧
      (filled.entries.filter fun entry => !entry.backfilled).map Entry.withoutPrevious =
        plain.entries.map Entry.withoutPrevious ∧
      (Journey.ofSessions filled.entries).map Journey.span =
        (Journey.ofSessions plain.entries).map Journey.span ∧
      List.Forall₂ Metric.GrowsTo plain.metrics filled.metrics := by
  refine ⟨(plan.withBackfill false).output events records,
    (plan.withBackfill true).output events records, run_eq_ok_iff.2 ⟨h, rfl⟩,
    run_eq_ok_iff.2 ⟨h, rfl⟩, plan.map_withoutPrevious_entries events records, ?_, ?_⟩
  · refine Journey.map_span_ofSessions_eq (fun entry hentry => ?_) fun entry' hentry' => ?_
    · obtain ⟨entry', hentry', -, heq⟩ := exists_mem_withBackfill_true hentry
      exact ⟨entry', hentry', congrArg (fun e => e.journeyKey) heq,
        congrArg (fun e => e.enteredAt) heq, congrArg (fun e => e.stepRank) heq⟩
    · obtain ⟨entry, hentry, hkey, htime, hle, -⟩ := exists_mem_withBackfill_false hentry'
      exact ⟨entry, hentry, hkey, htime, hle⟩
  · exact Metric.forall₂_growsTo_ofEntries plan.steps
      (combinations_withBackfill plan events records)
      (fun _ _ => plan.usersWhere_withBackfill_subset events records fun _ => Iff.rfl)
      (fun _ _ => plan.usersWhere_withBackfill_subset events records fun _ => Iff.rfl)

theorem run_checkout_conservative :
    firstDefect? checkoutEvents = none ∧
      ∃ plain filled,
        (checkout.withBackfill false).run checkoutEvents [] = .ok plain ∧
        (checkout.withBackfill true).run checkoutEvents [] = .ok filled ∧
        (filled.entries.filter fun entry => !entry.backfilled).map Entry.withoutPrevious =
          plain.entries.map Entry.withoutPrevious ∧
        (Journey.ofSessions filled.entries).map Journey.span =
          (Journey.ofSessions plain.entries).map Journey.span ∧
        List.Forall₂ Metric.GrowsTo plain.metrics filled.metrics :=
  ⟨by decide, checkout.run_withBackfill_conservative checkoutEvents [] (by decide)⟩

end Plan

end Funnel
