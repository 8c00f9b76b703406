import Funnel.Proofs.Plan.Reached

/-!
# The relation of entries of a run

The entries of a run can be stated without any of the stages that compute them: which ranks a
session reaches and when, in which order the entries stand, and how each of them tells of its
neighbours.
-/

namespace Funnel

open Std Time

/-- The place of an entry in a relation: by user and session, then by time and rank. -/
def Entry.place (entry : Entry) : String × String × Instant × UInt32 :=
  (entry.user, entry.session, entry.enteredAt, entry.stepRank)

/-- Within a session of different ranks, position and place order entries alike. -/
theorem Entry.place_lt {a b : Entry} (hne : a.cell ≠ b.cell)
    (h : compare (a.sessionKey, a.position) (b.sessionKey, b.position) = .lt) :
    compare a.place b.place = .lt := by
  simp only [place, compare_pair_eq_lt, Instant.compare_eq_lt, Std.compare_eq_lt]
  rcases compare_pair_eq_lt.1 h with hkey | ⟨hkey, hposition⟩
  · rcases compare_pair_eq_lt.1 hkey with huser | ⟨huser, hsession⟩
    · exact .inl huser
    · exact .inr ⟨huser, .inl hsession⟩
  · obtain ⟨huser, hsession⟩ := Prod.mk.inj hkey
    refine .inr ⟨huser, .inr ⟨hsession, (position_lt_iff fun hrank => hne ?_).1 hposition⟩⟩
    exact Prod.ext hkey hrank

namespace Plan

variable {plan : Plan} {events : List Event} {records : List AttributeRecord}

/-- The times, from a given one on, at which a session reaches ranks above a given one. -/
def advances (plan : Plan) (events : List Event) (key : String × String) (rank : UInt32)
    (time : Instant) : Set Instant :=
  { later | time ≤ later ∧ ∃ higher added, rank < higher ∧
    plan.Reaches events key higher later added }

/-- The times at which a session reaches a rank behind a given one at a given time, and where only
higher ranks count, one above it. -/
def onwardTimes (plan : Plan) (events : List Event) (key : String × String) (rank : UInt32)
    (time : Instant) : Set Instant :=
  { later | ∃ other added, plan.Reaches events key other later added ∧
    (time < later ∨ time = later ∧ rank < other) ∧
    (plan.config.mode = .higherRank → rank < other) }

/-- A list of entries is the relation of some events under a plan. -/
structure IsRelation (plan : Plan) (events : List Event) (entries : List Entry) : Prop where
  /-- Entries are listed by user and session, then by time and rank. -/
  ordered : Ascending Entry.place entries
  /-- Every rank that a session reaches has one entry. -/
  complete : ∀ key rank time added, plan.Reaches events key rank time added →
    ∃! entry, entry ∈ entries ∧ entry.sessionKey = key ∧ entry.stepRank = rank
  /-- Every entry tells of a rank that its session reaches: when, under which name, and whether it
  is filled in. -/
  sound : ∀ entry ∈ entries,
    plan.Reaches events entry.sessionKey entry.stepRank entry.enteredAt entry.backfilled ∧
      ∃ step ∈ plan.steps, step.rank = entry.stepRank ∧ step.name = entry.stepName
  /-- The previous step is that of the entry of the session in front. -/
  previous : ∀ before entry after, entries = before ++ entry :: after →
    entry.previousStep =
      (Entry.ofSession entry.sessionKey before).getLast?.map Entry.stepName
  /-- Where any later entry counts, a session goes on with the entry behind. -/
  next : plan.config.mode = .anyLaterEvent → ∀ before entry after,
    entries = before ++ entry :: after →
      entry.nextEnteredAt =
        (Entry.ofSession entry.sessionKey after).head?.map Entry.enteredAt
  /-- Where only higher ranks count, a session goes on when it first reaches one. -/
  advance : plan.config.mode = .higherRank → ∀ entry ∈ entries, ∀ time,
    entry.nextEnteredAt = some time ↔
      IsLeast (plan.advances events entry.sessionKey entry.stepRank entry.enteredAt) time
  /-- An entry is converted if its session went on. -/
  converted : ∀ entry ∈ entries, entry.converted = entry.nextEnteredAt.isSome
  /-- The time to convert is counted in whole seconds. -/
  seconds : ∀ entry ∈ entries, entry.secondsToConvert =
    entry.nextEnteredAt.map fun time => time.secondsSince entry.enteredAt

def sequenced (plan : Plan) (events : List Event) : List Entry :=
  Entry.sequence plan.config.mode (plan.filled events)

def sessionMap (plan : Plan) (events : List Event) (records : List AttributeRecord)
    (key : String × String) : Dimensions :=
  Entry.dimensionsOf plan.dimensions plan.selection records (plan.sequenced events) key

theorem entries_eq (plan : Plan) (events : List Event) (records : List AttributeRecord) :
    plan.entries events records = (plan.sequenced events).map fun entry =>
      entry.withDimensions (plan.sessionMap events records entry.sessionKey) :=
  Entry.attach_eq _ _ _ _

theorem nodup_cell_sequenced (plan : Plan) (events : List Event) :
    ((plan.sequenced events).map Entry.cell).Nodup :=
  (Entry.map_cell_sequence_perm _ _).nodup_iff.2 (plan.nodup_cell_filled events)

theorem reaches_of_mem_sequenced {entry : Entry} (h : entry ∈ plan.sequenced events) :
    plan.Reaches events entry.sessionKey entry.stepRank entry.enteredAt entry.backfilled ∧
      ∃ step ∈ plan.steps, step.rank = entry.stepRank ∧ step.name = entry.stepName := by
  obtain ⟨origin, horigin, hbare⟩ := Entry.exists_mem_of_mem_sequence h
  have hreaches := reaches_of_mem_filled horigin
  have hkey : origin.sessionKey = entry.sessionKey := congrArg (fun e => e.sessionKey) hbare
  have hname : origin.stepName = entry.stepName := congrArg (fun e => e.stepName) hbare
  have hrank : origin.stepRank = entry.stepRank := congrArg (fun e => e.stepRank) hbare
  have htime : origin.enteredAt = entry.enteredAt := congrArg (fun e => e.enteredAt) hbare
  have hadded : origin.backfilled = entry.backfilled := congrArg (fun e => e.backfilled) hbare
  rw [hkey, hname, hrank, htime, hadded] at hreaches
  exact hreaches

/-- A session goes on from an entry at the times at which it reaches a rank behind it. -/
theorem onward_filled_eq {entry : Entry} (h : entry ∈ plan.sequenced events) :
    Entry.onward plan.config.mode entry
        (Entry.ofSession entry.sessionKey (plan.filled events)) =
      plan.onwardTimes events entry.sessionKey entry.stepRank entry.enteredAt := by
  ext time
  constructor
  · rintro ⟨other, hother, ⟨hlt, hrank⟩, rfl⟩
    obtain ⟨hmem, hkey⟩ := Entry.mem_ofSession.1 hother
    have hneq : entry.stepRank ≠ other.stepRank := by
      -- an entry of the same rank is the entry itself, which does not stand behind itself
      intro heq
      obtain ⟨origin, horigin, hbare⟩ := Entry.exists_mem_of_mem_sequence h
      have hcell : origin.cell = other.cell := by
        rw [← Entry.cell_bare, hbare, Entry.cell_bare]
        exact Prod.ext hkey.symm heq
      have hsame : origin = other :=
        List.inj_on_of_nodup_map (plan.nodup_cell_filled events) horigin hmem hcell
      refine ne_of_compare_lt hlt ?_
      rw [← Entry.position_bare entry, ← hbare, hsame, Entry.position_bare]
    have hreaches := (reaches_of_mem_filled hmem).1
    rw [hkey] at hreaches
    exact ⟨_, _, hreaches, (Entry.position_lt_iff hneq).1 hlt, hrank⟩
  · rintro ⟨rank, added, hreaches, hbehind, hhigher⟩
    obtain ⟨other, hother, hcell⟩ := exists_mem_filled hreaches
    have hkey : other.sessionKey = entry.sessionKey := congrArg Prod.fst hcell
    obtain rfl : other.stepRank = rank := congrArg Prod.snd hcell
    have hreaches' := (reaches_of_mem_filled hother).1
    rw [hkey] at hreaches'
    obtain ⟨rfl, -⟩ := hreaches.unique hreaches'
    have hneq : entry.stepRank ≠ other.stepRank := by
      -- the same rank would be reached at the same time, and so not behind the entry
      intro heq
      rw [← heq] at hreaches hbehind
      obtain ⟨htime, -⟩ := hreaches.unique (reaches_of_mem_sequenced h).1
      rw [htime] at hbehind
      exact hbehind.elim (lt_irrefl _) fun h => Std.lt_irrefl h.2
    exact ⟨other, Entry.mem_ofSession.2 ⟨hother, hkey⟩,
      ⟨(Entry.position_lt_iff hneq).2 hbehind, hhigher⟩, rfl⟩

theorem nextEnteredAt_of_mem_sequenced {entry : Entry} (h : entry ∈ plan.sequenced events)
    {time : Instant} :
    entry.nextEnteredAt = some time ↔
      IsLeast (plan.onwardTimes events entry.sessionKey entry.stepRank entry.enteredAt) time := by
  rw [← onward_filled_eq h]
  exact Entry.nextEnteredAt_of_mem_sequence (plan.nodup_cell_filled events) h

theorem onwardTimes_eq_advances (hmode : plan.config.mode = .higherRank) (key : String × String)
    (rank : UInt32) (time : Instant) :
    plan.onwardTimes events key rank time = plan.advances events key rank time := by
  ext later
  constructor
  · rintro ⟨higher, added, hreaches, hbehind, hhigher⟩
    exact ⟨hbehind.elim (fun h => h.le) fun h => h.1.le, higher, added, hhigher hmode, hreaches⟩
  · rintro ⟨hle, higher, added, hlt, hreaches⟩
    refine ⟨higher, added, hreaches, ?_, fun _ => hlt⟩
    exact hle.lt_or_eq.imp id fun heq => ⟨heq, hlt⟩

/-- The sequence of the filled entries is the relation of the events. -/
theorem isRelation_sequenced (plan : Plan) (events : List Event) :
    plan.IsRelation events (plan.sequenced events) where
  ordered := by
    have hcells := List.pairwise_map.1 (plan.nodup_cell_sequenced events)
    have hasc : Ascending _ (plan.sequenced events) :=
      Entry.ascending_sequence (plan.nodup_cell_filled events)
    exact hcells.imp₂ (fun a b hne hlt => Entry.place_lt hne hlt) hasc
  complete := by
    intro key rank time added hreaches
    obtain ⟨origin, horigin, hcell⟩ := exists_mem_filled hreaches
    obtain ⟨entry, hentry, hbare⟩ :=
      Entry.exists_mem_sequence_of_mem plan.config.mode horigin
    -- signals change neither the session of an entry nor its rank
    have hentry_cell : entry.cell = (key, rank) := by
      rw [← hcell, ← Entry.cell_bare, hbare, Entry.cell_bare]
    refine ⟨entry, ⟨hentry, congrArg Prod.fst hentry_cell, congrArg Prod.snd hentry_cell⟩, ?_⟩
    rintro other ⟨hother, hkey, hrank⟩
    have hother_cell : other.cell = entry.cell := by rw [hentry_cell, ← hkey, ← hrank]; rfl
    exact List.inj_on_of_nodup_map (plan.nodup_cell_sequenced events) hother hentry hother_cell
  sound _ := reaches_of_mem_sequenced
  previous before entry after h := (Entry.neighbours_of_sequence h).1
  next hmode before entry after h := (Entry.neighbours_of_sequence h).2 hmode
  advance := by
    intro hmode entry hentry time
    rw [nextEnteredAt_of_mem_sequenced hentry, onwardTimes_eq_advances hmode]
  converted entry hentry := (Entry.conversion_of_mem_sequence hentry).1
  seconds entry hentry := (Entry.conversion_of_mem_sequence hentry).2

/-- What stands around an element of a mapped list comes from what stood around its origin. -/
theorem exists_of_map_eq_append {α β : Type} {f : α → β} {xs : List α} {before after : List β}
    {b : β} (h : xs.map f = before ++ b :: after) :
    ∃ earlier a later, xs = earlier ++ a :: later ∧ earlier.map f = before ∧ f a = b ∧
      later.map f = after := by
  obtain ⟨earlier, rest, rfl, hbefore, hrest⟩ := List.map_eq_append_iff.1 h
  obtain ⟨a, later, rfl, ha, hafter⟩ := List.map_eq_cons_iff.1 hrest
  exact ⟨earlier, a, later, rfl, hbefore, ha, hafter⟩

/-- Dimensions have no part in the relation. -/
theorem IsRelation.map_withDimensions {entries : List Entry} (h : plan.IsRelation events entries)
    (dimensions : Entry → Dimensions) :
    plan.IsRelation events (entries.map fun entry => entry.withDimensions (dimensions entry)) := by
  -- a session is told by its key alone, which has no dimensions in it
  have hsession : ∀ key (entries : List Entry),
      Entry.ofSession key (entries.map fun entry => entry.withDimensions (dimensions entry)) =
        (Entry.ofSession key entries).map fun entry =>
          entry.withDimensions (dimensions entry) := by
    intro key entries
    exact List.filter_map ..
  refine ⟨Ascending.map.2 h.ordered, ?_, ?_, ?_, ?_, ?_, ?_, ?_⟩
  · intro key rank time added hreaches
    obtain ⟨entry, ⟨hentry, hkey, hrank⟩, hunique⟩ := h.complete key rank time added hreaches
    refine ⟨_, ⟨List.mem_map_of_mem hentry, hkey, hrank⟩, ?_⟩
    rintro _ ⟨hmem, hother_key, hother_rank⟩
    obtain ⟨other, hother, rfl⟩ := List.mem_map.1 hmem
    rw [hunique other ⟨hother, hother_key, hother_rank⟩]
  · intro _ hmem
    obtain ⟨entry, hentry, rfl⟩ := List.mem_map.1 hmem
    exact h.sound entry hentry
  · intro before entry after heq
    obtain ⟨earlier, origin, later, horigin, rfl, rfl, rfl⟩ := exists_of_map_eq_append heq
    have hprevious := h.previous earlier origin later horigin
    rw [Entry.sessionKey_withDimensions, hsession, List.getLast?_map, Option.map_map]
    exact hprevious
  · intro hmode before entry after heq
    obtain ⟨earlier, origin, later, horigin, rfl, rfl, rfl⟩ := exists_of_map_eq_append heq
    have hnext := h.next hmode earlier origin later horigin
    rw [Entry.sessionKey_withDimensions, hsession, List.head?_map, Option.map_map]
    exact hnext
  · intro hmode _ hmem
    obtain ⟨entry, hentry, rfl⟩ := List.mem_map.1 hmem
    exact h.advance hmode entry hentry
  · intro _ hmem
    obtain ⟨entry, hentry, rfl⟩ := List.mem_map.1 hmem
    exact h.converted entry hentry
  · intro _ hmem
    obtain ⟨entry, hentry, rfl⟩ := List.mem_map.1 hmem
    exact h.seconds entry hentry

theorem isRelation_entries (plan : Plan) (events : List Event) (records : List AttributeRecord) :
    plan.IsRelation events (plan.entries events records) := by
  rw [entries_eq]
  exact (plan.isRelation_sequenced events).map_withDimensions _

/-- A converted entry has a time to convert. -/
theorem IsRelation.isSome_secondsToConvert {entries : List Entry}
    (h : plan.IsRelation events entries) :
    ∀ entry ∈ entries, entry.converted = true → entry.secondsToConvert.isSome := by
  intro entry hentry hconverted
  rw [h.seconds entry hentry, Option.isSome_map, ← h.converted entry hentry]
  exact hconverted

theorem dimensions_of_mem_entries {entry : Entry} (h : entry ∈ plan.entries events records) :
    entry.dimensions = plan.sessionMap events records entry.sessionKey :=
  Entry.dimensions_of_mem_attach h

theorem nextEnteredAt_of_mem_entries {entry : Entry} (h : entry ∈ plan.entries events records)
    {time : Instant} :
    entry.nextEnteredAt = some time ↔
      IsLeast (plan.onwardTimes events entry.sessionKey entry.stepRank entry.enteredAt) time := by
  rw [entries_eq] at h
  obtain ⟨origin, horigin, rfl⟩ := List.mem_map.1 h
  exact nextEnteredAt_of_mem_sequenced horigin

theorem run_eq_ok_iff {output : RunOutput} :
    plan.run events records = .ok output ↔
      firstDefect? events = none ∧ output = plan.output events records := by
  unfold run
  cases firstDefect? events with
  | none => simp [eq_comm]
  | some defect => simp

/-- A run of acceptable events gives the relation of these events. -/
theorem run_isRelation (plan : Plan) (events : List Event) (records : List AttributeRecord)
    (h : firstDefect? events = none) :
    ∃ output, plan.run events records = .ok output ∧ plan.IsRelation events output.entries :=
  ⟨plan.output events records, run_eq_ok_iff.2 ⟨h, rfl⟩,
    plan.isRelation_entries events records⟩

theorem run_checkout_isRelation :
    firstDefect? checkoutEvents = none ∧
      ∃ output, checkout.run checkoutEvents [] = .ok output ∧
        checkout.IsRelation checkoutEvents output.entries :=
  ⟨by decide, checkout.run_isRelation checkoutEvents [] (by decide)⟩

end Plan

end Funnel
