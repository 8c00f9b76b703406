import Funnel.Plan.Run
import Funnel.Proofs.Config.Ranks
import Funnel.Proofs.Entry.Attributes
import Funnel.Proofs.Entry.Backfill
import Funnel.Proofs.Entry.Canonical
import Funnel.Proofs.Entry.Sequence
import Funnel.Proofs.Event.Resolution

/-!
# Which ranks the sessions of some events reach

What a run publishes about a session is decided by the ranks that its events show and the latest
time of each. Skipped ranks are added at the earliest time of a rank above.
-/

namespace Funnel

open Std Time

/-- An event shows the step of a rank in a session: it is an event of the session, and its type
belongs to that step. -/
def Event.Shows (steps : List Step) (key : String × String) (rank : UInt32) (event : Event) :
    Prop :=
  (event.user, event.session) = key ∧
    (Step.resolve? steps event.eventType).map Step.rank = some rank

/-- The times at which the events of a session show the step of a rank. -/
def shownTimes (steps : List Step) (events : List Event) (key : String × String)
    (rank : UInt32) : Set Instant :=
  { time | ∃ event ∈ events, event.Shows steps key rank ∧ event.occurredAt = time }

/-- A session reaches a rank at a time: it shows the rank, last at that time, or the plan fills in
skipped steps, the session shows no event of the rank, and the time is the least at which it last
shows a higher one. The flag tells whether the rank is filled in. -/
inductive Plan.Reaches (plan : Plan) (events : List Event) (key : String × String) :
    UInt32 → Instant → Bool → Prop
  | shown {rank : UInt32} {time : Instant}
      (latest : IsGreatest (shownTimes plan.steps events key rank) time) :
      Reaches plan events key rank time false
  | skipped {rank : UInt32} {time : Instant} (filling : plan.config.backfill = true)
      (positive : 1 ≤ rank) (unseen : shownTimes plan.steps events key rank = ∅)
      (earliest : IsLeast
        { later | ∃ higher, rank < higher ∧
          IsGreatest (shownTimes plan.steps events key higher) later } time) :
      Reaches plan events key rank time true

theorem exists_isGreatest_shownTimes {steps : List Step} {events : List Event}
    {key : String × String} {rank : UInt32} (h : (shownTimes steps events key rank).Nonempty) :
    ∃ time, IsGreatest (shownTimes steps events key rank) time := by
  obtain ⟨_, event, hevent, hshows, -⟩ := h
  exact Instant.exists_isGreatest Event.occurredAt ⟨event, hevent, hshows⟩

namespace Plan

variable {plan : Plan} {events : List Event} {key : String × String}

theorem nodup_ranks (plan : Plan) : (plan.steps.map Step.rank).Nodup :=
  Config.nodup_ranks_of_check plan.accepted

/-- A session reaches a rank at one time only, and in one way only. -/
theorem Reaches.unique {rank : UInt32} {time time' : Instant} {added added' : Bool}
    (h : plan.Reaches events key rank time added)
    (h' : plan.Reaches events key rank time' added') : time = time' ∧ added = added' := by
  cases h with
  | shown latest =>
    cases h' with
    | shown latest' => exact ⟨latest.unique latest', rfl⟩
    | skipped _ _ unseen =>
      have hmem := latest.1
      rw [unseen] at hmem
      cases hmem
  | skipped _ _ unseen earliest =>
    cases h' with
    | shown latest' =>
      have hmem := latest'.1
      rw [unseen] at hmem
      cases hmem
    | skipped _ _ _ earliest' => exact ⟨earliest.unique earliest', rfl⟩

theorem exists_step_of_shown {rank : UInt32}
    (h : (shownTimes plan.steps events key rank).Nonempty) :
    ∃ step ∈ plan.steps, step.rank = rank := by
  obtain ⟨_, event, -, ⟨-, hrank⟩, -⟩ := h
  obtain ⟨step, hstep, heq⟩ := Option.map_eq_some_iff.1 hrank
  exact ⟨step, Step.mem_of_resolve? hstep, heq⟩

/-- Below a rank that is shown every rank from one upwards has a step. -/
theorem exists_step_of_lt_shown {rank higher : UInt32} (hpositive : 1 ≤ rank)
    (hlt : rank < higher) (h : (shownTimes plan.steps events key higher).Nonempty) :
    ∃ step ∈ plan.steps, step.rank = rank := by
  have hhigher := (Config.exists_step_of_check plan.accepted).1 (exists_step_of_shown h)
  refine (Config.exists_step_of_check plan.accepted).2 ⟨UInt32.le_iff_toNat_le.1 hpositive, ?_⟩
  have := UInt32.lt_iff_toNat_lt.1 hlt
  omega

theorem mem_classified_iff {classified : ClassifiedEvent} :
    classified ∈ plan.classified events ↔
      ∃ event ∈ events,
        { event with dimensions := event.dimensions.restrict plan.dimensions }.classified
          (Step.resolve? plan.steps event.eventType) = classified := by
  rw [Plan.classified, classify_eq, List.map_map, List.mem_map]
  rfl

theorem exists_step_of_mem_classified {classified : ClassifiedEvent}
    (h : classified ∈ plan.classified events) {rank : UInt32}
    (hrank : classified.stepRank = some rank) :
    ∃ step ∈ plan.steps, step.rank = rank ∧ step.name = classified.stepName := by
  obtain ⟨event, -, rfl⟩ := mem_classified_iff.1 h
  obtain ⟨step, hstep, heq⟩ := Option.map_eq_some_iff.1 hrank
  refine ⟨step, Step.mem_of_resolve? hstep, heq, ?_⟩
  simp only [Event.classified, hstep, Option.map_some, Option.getD_some]

theorem stepName_eq_of_mem_classified {a b : ClassifiedEvent} (ha : a ∈ plan.classified events)
    (hb : b ∈ plan.classified events) (hsome : a.stepRank.isSome)
    (heq : a.stepRank = b.stepRank) : a.stepName = b.stepName := by
  obtain ⟨rank, hrank⟩ := Option.isSome_iff_exists.1 hsome
  obtain ⟨step, hstep, hstep_rank, hname⟩ := exists_step_of_mem_classified ha hrank
  obtain ⟨step', hstep', hstep_rank', hname'⟩ := exists_step_of_mem_classified hb (heq ▸ hrank)
  have hsame : step = step' :=
    List.inj_on_of_nodup_map plan.nodup_ranks hstep hstep' (hstep_rank.trans hstep_rank'.symm)
  rw [← hname, ← hname', hsame]

theorem nodup_cell_canonical (plan : Plan) (events : List Event) :
    ((plan.canonical events).entries.map Entry.cell).Nodup :=
  Canonical.nodup_cell_entries fun _ ha _ hb => stepName_eq_of_mem_classified ha hb

/-- An entry of the events has the latest time at which they show its rank, and the name of the
step of that rank. -/
theorem shown_of_mem_canonical {entry : Entry} (h : entry ∈ (plan.canonical events).entries) :
    IsGreatest (shownTimes plan.steps events entry.sessionKey entry.stepRank) entry.enteredAt ∧
      ∃ step ∈ plan.steps, step.rank = entry.stepRank ∧ step.name = entry.stepName := by
  obtain ⟨classified, hmem, hentry, hlast⟩ := Canonical.exists_event_of_mem_entries h
  obtain ⟨hrank, heq⟩ := ClassifiedEvent.enters?_eq_some_iff.1 hentry
  obtain ⟨step, hstep, hstep_rank, hname⟩ := exists_step_of_mem_classified hmem hrank
  refine ⟨⟨?_, ?_⟩, step, hstep, hstep_rank, by rw [hname, heq]⟩
  · obtain ⟨event, hevent, rfl⟩ := mem_classified_iff.1 hmem
    exact ⟨event, hevent, ⟨by rw [heq]; rfl, hrank⟩, by rw [heq]; rfl⟩
  · rintro _ ⟨event, hevent, ⟨hkey, hshown⟩, rfl⟩
    have hother : _ ∈ plan.classified events := mem_classified_iff.2 ⟨event, hevent, rfl⟩
    refine hlast _ hother ?_
    have hranks := hshown.trans hrank.symm
    have hname := stepName_eq_of_mem_classified hmem hother (by rw [hrank]; rfl) hranks.symm
    have hsession : (event.user, event.session) = (classified.user, classified.session) := by
      rw [hkey, heq]
      rfl
    obtain ⟨huser, hsession⟩ := Prod.mk.inj hsession
    simp only [ClassifiedEvent.slot, Prod.mk.injEq]
    exact ⟨huser, hsession, hname.symm, hranks⟩

theorem exists_mem_canonical {rank : UInt32}
    (h : (shownTimes plan.steps events key rank).Nonempty) :
    ∃ entry ∈ (plan.canonical events).entries, entry.cell = (key, rank) := by
  obtain ⟨_, event, hevent, ⟨rfl, hrank⟩, -⟩ := h
  exact Canonical.exists_mem_entries (mem_classified_iff.2 ⟨event, hevent, rfl⟩) hrank

theorem mem_filled_iff {entry : Entry} :
    entry ∈ plan.filled events ↔
      entry ∈ (plan.canonical events).entries ∨ plan.config.backfill = true ∧
        Entry.FillsIn plan.steps
          (Entry.ofSession entry.sessionKey (plan.canonical events).entries) entry := by
  unfold filled
  by_cases hfill : plan.config.backfill = true
  · simp [hfill, Entry.mem_backfill_iff plan.nodup_ranks]
  · simp [hfill]

/-- One entry for each session and rank. -/
theorem nodup_cell_filled (plan : Plan) (events : List Event) :
    ((plan.filled events).map Entry.cell).Nodup := by
  unfold filled
  by_cases hfill : plan.config.backfill = true
  · simp only [hfill, if_true]
    exact Entry.nodup_cell_backfill plan.nodup_ranks (plan.nodup_cell_canonical events)
  · simp only [hfill]
    exact plan.nodup_cell_canonical events

/-- A filled entry tells when its session reaches its rank, and whether by being filled in. -/
theorem reaches_of_mem_filled {entry : Entry} (h : entry ∈ plan.filled events) :
    plan.Reaches events entry.sessionKey entry.stepRank entry.enteredAt entry.backfilled ∧
      ∃ step ∈ plan.steps, step.rank = entry.stepRank ∧ step.name = entry.stepName := by
  rcases mem_filled_iff.1 h with hshown | ⟨hfill, hfills⟩
  · obtain ⟨hlatest, hstep⟩ := shown_of_mem_canonical hshown
    refine ⟨?_, hstep⟩
    rw [(Canonical.plain_of_mem_entries hshown).2]
    exact .shown hlatest
  · refine ⟨?_, hfills.named⟩
    rw [hfills.backfilled_eq]
    -- the time comes from the anchor, the earliest of what the session shows above the rank
    obtain ⟨anchor, hanchor, heq⟩ := hfills.anchored
    obtain ⟨hmem, hrank, hleast⟩ := Entry.anchor?_eq_some hanchor
    obtain ⟨hmem, hkey⟩ := Entry.mem_ofSession.1 hmem
    have htime : entry.enteredAt = anchor.enteredAt := by rw [heq]
    refine .skipped hfill hfills.positive ?_ ⟨⟨anchor.stepRank, hrank, ?_⟩, ?_⟩
    · refine Set.not_nonempty_iff_eq_empty.1 fun hne => ?_
      obtain ⟨other, hother, hcell⟩ := exists_mem_canonical hne
      refine hfills.skipped other (Entry.mem_ofSession.2 ⟨hother, ?_⟩) (congrArg Prod.snd hcell)
      exact congrArg Prod.fst hcell
    · rw [htime, ← hkey]
      exact (shown_of_mem_canonical hmem).1
    · rintro later ⟨higher, hlt, hlatest⟩
      obtain ⟨other, hother, hcell⟩ := exists_mem_canonical ⟨later, hlatest.1⟩
      have hother_key : other.sessionKey = entry.sessionKey := congrArg Prod.fst hcell
      have hother_rank : other.stepRank = higher := congrArg Prod.snd hcell
      have hother_time := (shown_of_mem_canonical hother).1
      rw [hother_key, hother_rank] at hother_time
      rw [htime, hlatest.unique hother_time]
      rcases hleast other (Entry.mem_ofSession.2 ⟨hother, hother_key⟩) (hother_rank ▸ hlt) with
        hbefore | ⟨heq_time, -⟩
      · exact hbefore.le
      · exact heq_time.le

/-- Where skipped steps are filled in, every rank below one that a session shows has an entry. -/
theorem exists_mem_filled_of_lt_shown {rank higher : UInt32}
    (filling : plan.config.backfill = true) (positive : 1 ≤ rank)
    (unseen : shownTimes plan.steps events key rank = ∅) (hlt : rank < higher)
    (hshown : (shownTimes plan.steps events key higher).Nonempty) :
    ∃ entry ∈ plan.filled events, entry.cell = (key, rank) := by
  obtain ⟨above, habove, hcell⟩ := exists_mem_canonical hshown
  obtain ⟨step, hstep, rfl⟩ := exists_step_of_lt_shown positive hlt hshown
  have hkey : above.sessionKey = key := congrArg Prod.fst hcell
  have hrank : above.stepRank = higher := congrArg Prod.snd hcell
  have hskipped : ∀ other ∈ Entry.ofSession key (plan.canonical events).entries,
      other.stepRank ≠ step.rank := by
    intro other hother heq
    obtain ⟨hother, hother_key⟩ := Entry.mem_ofSession.1 hother
    have hmem := (shown_of_mem_canonical hother).1.1
    rw [hother_key, heq] at hmem
    exact Set.eq_empty_iff_forall_notMem.1 unseen _ hmem
  obtain ⟨entry, hfills, hentry_rank⟩ := Entry.exists_fillsIn hstep positive hskipped
    ⟨above, Entry.mem_ofSession.2 ⟨habove, hkey⟩, hrank ▸ hlt⟩
  have hentry_key : entry.sessionKey = key :=
    hfills.sessionKey_eq fun _ hother => (Entry.mem_ofSession.1 hother).2
  refine ⟨entry, mem_filled_iff.2 (.inr ⟨filling, ?_⟩), Prod.ext hentry_key hentry_rank⟩
  rw [hentry_key]
  exact hfills

theorem exists_mem_filled {rank : UInt32} {time : Instant} {added : Bool}
    (h : plan.Reaches events key rank time added) :
    ∃ entry ∈ plan.filled events, entry.cell = (key, rank) := by
  cases h with
  | shown latest =>
    obtain ⟨entry, hentry, hcell⟩ := exists_mem_canonical ⟨time, latest.1⟩
    exact ⟨entry, mem_filled_iff.2 (.inl hentry), hcell⟩
  | skipped filling positive unseen earliest =>
    obtain ⟨higher, hlt, hlatest⟩ := earliest.1
    exact exists_mem_filled_of_lt_shown filling positive unseen hlt ⟨time, hlatest.1⟩

/-- A session passes a rank: it shows the rank, or where skipped steps are filled in, the rank or
one above. -/
def Passes (plan : Plan) (events : List Event) (key : String × String) (rank : UInt32) : Prop :=
  ∃ shown, (shown = rank ∨ plan.config.backfill = true ∧ rank ≤ shown) ∧
    (shownTimes plan.steps events key shown).Nonempty

/-- The ranks that a session passes are those that it reaches at some time. -/
theorem passes_iff {rank : UInt32} (hpositive : 1 ≤ rank) :
    plan.Passes events key rank ↔ ∃ time added, plan.Reaches events key rank time added := by
  constructor
  · rintro ⟨shown, hshown, hne⟩
    by_cases hrank : (shownTimes plan.steps events key rank).Nonempty
    · obtain ⟨time, hlatest⟩ := exists_isGreatest_shownTimes hrank
      exact ⟨time, false, .shown hlatest⟩
    · -- the rank itself is not shown, so one above it is, and the plan fills in
      have hneq : rank ≠ shown := fun heq => hrank (heq ▸ hne)
      obtain ⟨hfill, hle⟩ := hshown.resolve_left hneq.symm
      obtain ⟨entry, hentry, hcell⟩ := exists_mem_filled_of_lt_shown hfill hpositive
        (Set.not_nonempty_iff_eq_empty.1 hrank) (Std.lt_of_le_of_ne hle hneq) hne
      obtain ⟨rfl, rfl⟩ := Prod.mk.inj hcell
      exact ⟨_, _, (reaches_of_mem_filled hentry).1⟩
  · rintro ⟨time, added, hreaches⟩
    cases hreaches with
    | shown latest => exact ⟨rank, .inl rfl, time, latest.1⟩
    | skipped filling _ _ earliest =>
      obtain ⟨higher, hlt, hlatest⟩ := earliest.1
      exact ⟨higher, .inr ⟨filling, Std.le_of_lt hlt⟩, time, hlatest.1⟩

end Plan

/-- A funnel of three steps, of which the first two claim one event type both. -/
def Config.checkout : Config where
  funnelName := "checkout"
  source :=
    { table := "shop.events"
      userColumn := "user_id"
      sessionColumn := some "session_id"
      eventColumn := "event_name"
      timeColumn := "occurred_at"
      propertiesColumn := none }
  destination := { schema := "reports", stem := "checkout" }
  periodDays := none
  filters := []
  steps :=
    [{ rank := 1, name := "Home", eventTypes := .ofTexts ["home", "landing"] },
      { rank := 2, name := "Cart", eventTypes := .ofTexts ["cart", "landing"] },
      { rank := 3, name := "Purchase", eventTypes := .ofTexts ["purchase"] }]
  dimensions := ["os"]
  lookup := none
  mode := .higherRank
  backfill := true

def Plan.checkout : Plan where
  config := .checkout
  accepted := Config.check_eq_ok_of_isOk (by decide +kernel)

/-- Events of the shop: a session that comes back to the first step from the last one, a session
with two steps at one time, a session with one step only and an event of no step. -/
def Plan.checkoutEvents : List Event :=
  let os := fun name => NameMap.ofList [("os", some name)]
  [{ user := "ann", session := "s1", eventType := "landing", occurredAt := ⟨10⟩,
      dimensions := os "ios" },
    { user := "ann", session := "s1", eventType := "purchase", occurredAt := ⟨20⟩,
      dimensions := os "web" },
    { user := "ann", session := "s1", eventType := "home", occurredAt := ⟨30⟩,
      dimensions := os "ios" },
    { user := "ann", session := "s2", eventType := "purchase", occurredAt := ⟨20⟩,
      dimensions := os "web" },
    { user := "ann", session := "s2", eventType := "cart", occurredAt := ⟨20⟩,
      dimensions := .empty },
    { user := "bob", session := "s1", eventType := "scroll", occurredAt := ⟨5⟩,
      dimensions := .empty },
    { user := "bob", session := "s1", eventType := "purchase", occurredAt := ⟨7⟩,
      dimensions := .empty }]

end Funnel
