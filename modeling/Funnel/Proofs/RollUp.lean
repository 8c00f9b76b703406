import Funnel.Proofs.Event.Coverage
import Funnel.Proofs.Journey
import Mathlib.Order.Interval.Finset.Nat

/-!
# Journeys of users as roll-ups

A user's journey is computed from entries, not from the journeys of the user's sessions, and yet it
sums these up.
-/

namespace Funnel

open Std Time

section Cover

variable {ι α : Type} {is : List ι} {whole : Set α} {parts : ι → Set α}

/-- The least of all is the least of what is least in some part. -/
theorem isLeast_of_cover [LE α] [Antisymm fun a b : α => a ≤ b] {least : ι → α} {a : α}
    (hcover : ∀ x, x ∈ whole ↔ ∃ i ∈ is, x ∈ parts i)
    (hparts : ∀ i ∈ is, IsLeast (parts i) (least i)) (hwhole : IsLeast whole a) :
    IsLeast { x | ∃ i ∈ is, least i = x } a := by
  have hbelow : ∀ i ∈ is, a ≤ least i := fun i hi =>
    hwhole.2 ((hcover _).2 ⟨i, hi, (hparts i hi).1⟩)
  obtain ⟨i, hi, ha⟩ := (hcover a).1 hwhole.1
  refine ⟨⟨i, hi, antisymm ((hparts i hi).2 ha) (hbelow i hi)⟩, ?_⟩
  rintro _ ⟨j, hj, rfl⟩
  exact hbelow j hj

theorem isGreatest_of_cover [LE α] [Antisymm fun a b : α => a ≤ b] {greatest : ι → α} {a : α}
    (hcover : ∀ x, x ∈ whole ↔ ∃ i ∈ is, x ∈ parts i)
    (hparts : ∀ i ∈ is, IsGreatest (parts i) (greatest i)) (hwhole : IsGreatest whole a) :
    IsGreatest { x | ∃ i ∈ is, greatest i = x } a := by
  have hdual : Antisymm fun a b : αᵒᵈ => a ≤ b :=
    ⟨fun _ _ hab hba => antisymm (r := fun a b : α => a ≤ b) hba hab⟩
  exact isLeast_of_cover (α := αᵒᵈ) hcover hparts hwhole

/-- What is covered by parts has no more elements than the parts together. -/
theorem ncard_le_total (is : List ι) (parts : ι → Set α) :
    { x | ∃ i ∈ is, x ∈ parts i }.ncard ≤ total (is.map fun i => (parts i).ncard) := by
  induction is with
  | nil => simp
  | cons i is ih =>
    have hunion : { x | ∃ j ∈ i :: is, x ∈ parts j } =
        parts i ∪ { x | ∃ j ∈ is, x ∈ parts j } := by
      ext x
      simp
    rw [hunion]
    exact (Set.ncard_union_le _ _).trans (Nat.add_le_add_left ih _)

end Cover

namespace Entry

def sessions (entries : List Entry) : Set String :=
  { session | ∃ entry ∈ entries, entry.session = session }

theorem finite_ranks (entries : List Entry) : (ranks entries).Finite :=
  (entries.map stepRank).finite_toSet.subset fun _ ⟨_, hentry, hrank⟩ =>
    List.mem_map.2 ⟨_, hentry, hrank⟩

end Entry

namespace Journey

variable {user : String} {session : Option String} {dimensions : Dimensions}
  {entries : List Entry} {sessions : List Journey} {journey other : Journey}

/-- The journeys among others that are of the same user and dimension map. -/
def alike (journey : Journey) (journeys : List Journey) : List Journey :=
  journeys.filter fun other =>
    (other.user, other.dimensions) = (journey.user, journey.dimensions)

/-- A journey sums up others. -/
structure RollsUp (journey : Journey) (others : List Journey) : Prop where
  /-- It counts them. -/
  sessionCount : journey.sessionCount = others.length
  /-- It starts with the lowest and earliest of them. -/
  firstStep : IsLeast { step | ∃ other ∈ others, other.firstStep = step } journey.firstStep
  firstEnteredAt :
    IsLeast { time | ∃ other ∈ others, other.firstEnteredAt = time } journey.firstEnteredAt
  /-- It ends with the highest and latest of them. -/
  lastStep : IsGreatest { step | ∃ other ∈ others, other.lastStep = step } journey.lastStep
  lastEnteredAt :
    IsGreatest { time | ∃ other ∈ others, other.lastEnteredAt = time } journey.lastEnteredAt
  /-- It takes from its start to its end, in whole seconds. -/
  elapsedSeconds :
    journey.elapsedSeconds = journey.lastEnteredAt.secondsSince journey.firstEnteredAt
  /-- It has at least the different steps of each of them, and at most those of all together. -/
  distinctSteps_ge : ∀ other ∈ others, other.distinctSteps ≤ journey.distinctSteps
  distinctSteps_le : journey.distinctSteps ≤ total (others.map distinctSteps)
  /-- It has no more different steps than there are ranks from its first to its last. -/
  span : journey.firstStep.toNat + journey.distinctSteps ≤ journey.lastStep.toNat + 1

theorem counts_of_ofEntries? (h : ofEntries? user session dimensions entries = some journey) :
    journey.distinctSteps = (Entry.ranks entries).ncard ∧
      journey.sessionCount = (Entry.sessions entries).ncard ∧
      journey.elapsedSeconds =
        journey.lastEnteredAt.secondsSince journey.firstEnteredAt := by
  simp only [ofEntries?, Option.bind_eq_bind, Option.bind_eq_some_iff] at h
  obtain ⟨first, -, last, -, firstStep, -, lastStep, -, heq⟩ := h
  obtain rfl := Option.some.inj heq
  refine ⟨?_, ?_, rfl⟩
  · refine (length_distinct _).trans (congrArg Set.ncard ?_)
    ext rank
    exact List.mem_map
  · refine (length_distinct _).trans (congrArg Set.ncard ?_)
    ext session
    exact List.mem_map

/-- Different ranks between two ranks are at most as many as there are numbers between these. -/
theorem SumsUp.firstStep_add_ncard_le (h : journey.SumsUp entries) :
    journey.firstStep.toNat + (Entry.ranks entries).ncard ≤ journey.lastStep.toNat + 1 := by
  have hnumbers : UInt32.toNat '' Entry.ranks entries ⊆
      ↑(Finset.Icc journey.firstStep.toNat journey.lastStep.toNat) := by
    rintro _ ⟨rank, hrank, rfl⟩
    exact Finset.mem_coe.2 (Finset.mem_Icc.2 ⟨UInt32.le_iff_toNat_le.1 (h.firstStep.2 hrank),
      UInt32.le_iff_toNat_le.1 (h.lastStep.2 hrank)⟩)
  have hcard := Set.ncard_le_ncard hnumbers (Finset.finite_toSet _)
  rw [Set.ncard_image_of_injective _ fun _ _ => UInt32.toNat_inj.1, Set.ncard_coe_finset,
    Nat.card_Icc] at hcard
  have hle := UInt32.le_iff_toNat_le.1 (h.firstStep.2 h.lastStep.1)
  omega

/-- The entries that a journey of a session sums up. -/
def members (journey : Journey) (entries : List Entry) : List Entry :=
  entries.filter fun entry =>
    entry.user = journey.user ∧ some entry.session = journey.session ∧
      entry.dimensions = journey.dimensions

@[simp]
theorem mem_alike : other ∈ journey.alike sessions ↔
    other ∈ sessions ∧ other.user = journey.user ∧ other.dimensions = journey.dimensions := by
  simp [alike]

@[simp]
theorem mem_members {entry : Entry} : entry ∈ journey.members entries ↔
    entry ∈ entries ∧ entry.user = journey.user ∧ some entry.session = journey.session ∧
      entry.dimensions = journey.dimensions := by
  simp [members]

theorem members_eq_ofJourney {entry : Entry} (h : entry ∈ journey.members entries) :
    journey.members entries = Entry.ofJourney entry.journeyKey entries := by
  obtain ⟨-, huser, hsession, hdimensions⟩ := mem_members.1 h
  refine List.filter_congr fun other _ => decide_eq_decide.2 ?_
  simp only [← huser, ← hsession, ← hdimensions, Entry.journeyKey, Prod.mk.injEq,
    Option.some.injEq]

theorem exists_mem_members {entry : Entry} (h : entry ∈ entries) :
    ∃ journey ∈ ofSessions entries, entry ∈ journey.members entries := by
  obtain ⟨journey, hjourney, huser, hsession, hdimensions, -⟩ := exists_mem_ofSessions h
  exact ⟨journey, hjourney, mem_members.2 ⟨h, huser.symm, hsession.symm, hdimensions.symm⟩⟩

/-- An entry belongs to the journey of one session only. -/
theorem eq_of_mem_members {entry : Entry} (hjourney : journey ∈ ofSessions entries)
    (h : entry ∈ journey.members entries) (hother : other ∈ ofSessions entries)
    (hother_mem : entry ∈ other.members entries) : journey = other := by
  obtain ⟨-, huser, hsession, hdimensions⟩ := mem_members.1 h
  obtain ⟨-, hother_user, hother_session, hother_dimensions⟩ := mem_members.1 hother_mem
  refine List.inj_on_of_nodup_map (nodup_key_ofSessions entries) hjourney hother ?_
  rw [← huser, ← hsession, ← hdimensions, hother_user, hother_session, hother_dimensions]

theorem sumsUp_members (h : journey ∈ ofSessions entries) :
    journey.SumsUp (journey.members entries) ∧
      journey.distinctSteps = (Entry.ranks (journey.members entries)).ncard ∧
      journey.sessionCount = 1 := by
  obtain ⟨entry, hentry, heq⟩ := mem_ofSessions.1 h
  obtain ⟨huser, hsession, hdimensions, hsums⟩ := ofEntries?_eq_some heq
  obtain ⟨hsteps, hcount, -⟩ := counts_of_ofEntries? heq
  have hmembers : journey.members entries = Entry.ofJourney entry.journeyKey entries :=
    members_eq_ofJourney
      (mem_members.2 ⟨hentry, huser.symm, hsession.symm, hdimensions.symm⟩)
  have hone : Entry.sessions (Entry.ofJourney entry.journeyKey entries) = {entry.session} := by
    ext name
    constructor
    · rintro ⟨other, hother, rfl⟩
      exact congrArg (fun key => key.2.1) (Entry.mem_ofJourney.1 hother).2
    · rintro rfl
      exact ⟨entry, Entry.mem_ofJourney.2 ⟨hentry, rfl⟩, rfl⟩
  rw [hmembers]
  exact ⟨hsums, hsteps, by rw [hcount, hone, Set.ncard_singleton]⟩

/-- The entries are shared out among the journeys of sessions. -/
theorem exists_mem_members_iff {p : Entry → Prop} :
    (∃ entry ∈ entries, p entry) ↔
      ∃ journey ∈ ofSessions entries, ∃ entry ∈ journey.members entries, p entry := by
  constructor
  · rintro ⟨entry, hentry, hp⟩
    obtain ⟨journey, hjourney, hin⟩ := exists_mem_members hentry
    exact ⟨journey, hjourney, entry, hin, hp⟩
  · rintro ⟨journey, -, entry, hentry, hp⟩
    exact ⟨entry, (mem_members.1 hentry).1, hp⟩

/-- The journeys of one user and map are the journeys of the entries of that user and map. -/
theorem ofSessions_filter_map (entries : List Entry) (key : String × Dimensions) :
    ofSessions (entries.filter fun entry => (entry.user, entry.dimensions) = key) =
      (ofSessions entries).filter fun journey => (journey.user, journey.dimensions) = key := by
  refine filterMap_groupBy_filter Entry.journeyKey (p := fun k => (k.1, k.2.2) = key)
    fun group _ journey h => ?_
  obtain ⟨huser, -, hdimensions, -⟩ := ofEntries?_eq_some h
  rw [huser, hdimensions]

/-- Entries of one user and map have as many journeys of sessions as they have sessions. -/
theorem length_ofSessions_of_alike {key : String × Dimensions}
    (halike : ∀ entry ∈ entries, (entry.user, entry.dimensions) = key) :
    (ofSessions entries).length = (Entry.sessions entries).ncard := by
  have hunified : ∀ a ∈ entries, ∀ b ∈ entries, a.sessionKey = b.sessionKey →
      a.dimensions = b.dimensions := fun a ha b hb _ =>
    congrArg Prod.snd ((halike a ha).trans (halike b hb).symm)
  have huser : ∀ entry ∈ entries, entry.user = key.1 := fun entry hentry =>
    congrArg Prod.fst (halike entry hentry)
  have hkeys : { k | ∃ entry ∈ entries, entry.sessionKey = k } =
      Prod.mk key.1 '' Entry.sessions entries := by
    ext k
    constructor
    · rintro ⟨entry, hentry, rfl⟩
      exact ⟨entry.session, ⟨entry, hentry, rfl⟩, Prod.ext (huser entry hentry).symm rfl⟩
    · rintro ⟨_, ⟨entry, hentry, rfl⟩, rfl⟩
      exact ⟨entry, hentry, Prod.ext (huser entry hentry) rfl⟩
  rw [length_ofSessions hunified, hkeys,
    Set.ncard_image_of_injective _ (Prod.mk_right_injective key.1)]

/-- The summary of entries of one user and map rolls up the journeys of their sessions. -/
theorem rollsUp_of_ofEntries? {key : String × Dimensions}
    (halike : ∀ entry ∈ entries, (entry.user, entry.dimensions) = key)
    (h : ofEntries? user session dimensions entries = some journey) :
    journey.RollsUp (ofSessions entries) := by
  obtain ⟨-, -, -, hsums⟩ := ofEntries?_eq_some h
  obtain ⟨hsteps, hcount, helapsed⟩ := counts_of_ofEntries? h
  -- every entry belongs to the journey of its session, so the journeys have all ranks and times
  have hranks : ∀ rank, rank ∈ Entry.ranks entries ↔
      ∃ other ∈ ofSessions entries, rank ∈ Entry.ranks (other.members entries) :=
    fun _ => exists_mem_members_iff
  have htimes : ∀ time, time ∈ Entry.times entries ↔
      ∃ other ∈ ofSessions entries, time ∈ Entry.times (other.members entries) :=
    fun _ => exists_mem_members_iff
  exact {
    sessionCount := hcount.trans (length_ofSessions_of_alike halike).symm
    firstStep := isLeast_of_cover hranks (fun _ hother => (sumsUp_members hother).1.firstStep)
      hsums.firstStep
    firstEnteredAt := isLeast_of_cover htimes
      (fun _ hother => (sumsUp_members hother).1.firstEnteredAt) hsums.firstEnteredAt
    lastStep := isGreatest_of_cover hranks (fun _ hother => (sumsUp_members hother).1.lastStep)
      hsums.lastStep
    lastEnteredAt := isGreatest_of_cover htimes
      (fun _ hother => (sumsUp_members hother).1.lastEnteredAt) hsums.lastEnteredAt
    elapsedSeconds := helapsed
    distinctSteps_ge := by
      intro other hother
      rw [(sumsUp_members hother).2.1, hsteps]
      exact Set.ncard_le_ncard (fun rank hrank => (hranks rank).2 ⟨other, hother, hrank⟩)
        (Entry.finite_ranks entries)
    distinctSteps_le := by
      have hall : Entry.ranks entries =
          { rank | ∃ other ∈ ofSessions entries, rank ∈ Entry.ranks (other.members entries) } :=
        Set.ext hranks
      have hparts : (ofSessions entries).map distinctSteps = (ofSessions entries).map
          fun other => (Entry.ranks (other.members entries)).ncard :=
        List.map_congr_left fun other hother => (sumsUp_members hother).2.1
      rw [hsteps, hall, hparts]
      exact ncard_le_total _ _
    span := hsteps ▸ hsums.firstStep_add_ncard_le }

theorem rollsUp_of_mem_ofUsers (h : journey ∈ ofUsers entries) :
    journey.RollsUp (journey.alike (ofSessions entries)) := by
  obtain ⟨entry, -, heq⟩ := mem_ofUsers.1 h
  obtain ⟨huser, -, hdimensions, -⟩ := ofEntries?_eq_some heq
  rw [alike, ← ofSessions_filter_map, huser, hdimensions]
  exact rollsUp_of_ofEntries? (fun other hother => of_decide_eq_true (List.mem_filter.1 hother).2)
    heq

/-- The user of every session has a journey of its map. -/
theorem exists_mem_ofUsers_of_session (h : journey ∈ ofSessions entries) :
    ∃ whole ∈ ofUsers entries, whole.user = journey.user ∧
      whole.dimensions = journey.dimensions := by
  obtain ⟨entry, hentry, huser, -, hdimensions, -⟩ := sumsUp_of_mem_ofSessions h
  rw [huser, hdimensions]
  exact exists_mem_ofUsers hentry

end Journey

end Funnel
