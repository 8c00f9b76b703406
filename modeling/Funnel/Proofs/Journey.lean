import Funnel.Journey
import Funnel.Proofs.Entry.Position

/-!
# What journeys say

A journey sums up the entries of one session, or of one user, that carry the same dimension map. Its
steps and times are the extremes of theirs.
-/

namespace Funnel

open Std Time

namespace Entry

def ranks (entries : List Entry) : Set UInt32 :=
  { rank | ∃ entry ∈ entries, entry.stepRank = rank }

def times (entries : List Entry) : Set Instant :=
  { time | ∃ entry ∈ entries, entry.enteredAt = time }

def usersWhere (entries : List Entry) (p : Entry → Prop) : Set String :=
  { user | ∃ entry ∈ entries, p entry ∧ entry.user = user }

def usersOf (entries : List Entry) (dimensions : Dimensions) : Set String :=
  usersWhere entries fun entry => entry.dimensions = dimensions

theorem usersWhere_mono {entries : List Entry} {p q : Entry → Prop}
    (h : ∀ entry ∈ entries, p entry → q entry) : usersWhere entries p ⊆ usersWhere entries q := by
  rintro user ⟨entry, hentry, hp, huser⟩
  exact ⟨entry, hentry, h entry hentry hp, huser⟩

theorem finite_usersWhere (entries : List Entry) (p : Entry → Prop) :
    (usersWhere entries p).Finite := by
  refine (entries.map user).toFinset.finite_toSet.subset ?_
  rintro _ ⟨entry, hentry, -, rfl⟩
  simpa using ⟨entry, hentry, rfl⟩

theorem length_groupBy_user (entries : List Entry) (p : Entry → Bool) :
    (groupBy user (entries.filter p)).length = (usersWhere entries fun entry => p entry).ncard := by
  refine (length_groupBy user _).trans (congrArg Set.ncard ?_)
  ext name
  simp [usersWhere, and_assoc]

/-- User, session and dimension map of an entry. -/
def journeyKey (entry : Entry) : String × String × Dimensions :=
  (entry.user, entry.session, entry.dimensions)

/-- The entries that are summed up together with those of a key. -/
def ofJourney (key : String × String × Dimensions) (entries : List Entry) : List Entry :=
  entries.filter fun entry => entry.journeyKey = key

@[simp]
theorem mem_ofJourney {key : String × String × Dimensions} {entries : List Entry}
    {entry : Entry} : entry ∈ ofJourney key entries ↔ entry ∈ entries ∧ entry.journeyKey = key := by
  simp [ofJourney]

end Entry

namespace Journey

variable {user : String} {session : Option String} {dimensions : Dimensions}
  {entries : List Entry} {journey : Journey}

/-- The steps and times of a journey are the extremes of some entries. -/
structure SumsUp (journey : Journey) (entries : List Entry) : Prop where
  firstStep : IsLeast (Entry.ranks entries) journey.firstStep
  lastStep : IsGreatest (Entry.ranks entries) journey.lastStep
  firstEnteredAt : IsLeast (Entry.times entries) journey.firstEnteredAt
  lastEnteredAt : IsGreatest (Entry.times entries) journey.lastEnteredAt

/-- The summary of some entries is about whom it is said to be, and sums them up. -/
theorem ofEntries?_eq_some (h : ofEntries? user session dimensions entries = some journey) :
    journey.user = user ∧ journey.session = session ∧ journey.dimensions = dimensions ∧
      journey.SumsUp entries := by
  simp only [ofEntries?, Option.bind_eq_bind, Option.bind_eq_some_iff] at h
  obtain ⟨first, hfirst, last, hlast, firstStep, hfirstStep, lastStep, hlastStep, heq⟩ := h
  obtain rfl := Option.some.inj heq
  refine ⟨rfl, rfl, rfl, ⟨?_, ?_⟩, ⟨?_, ?_⟩, ⟨?_, ?_⟩, ⟨?_, ?_⟩⟩
  · exact List.mem_map.1 (head?_distinct hfirstStep).1
  · rintro _ ⟨entry, hentry, rfl⟩
    exact Std.isLE_compare.1 ((head?_distinct hfirstStep).2 _ (List.mem_map_of_mem hentry))
  · exact List.mem_map.1 (getLast?_distinct hlastStep).1
  · rintro _ ⟨entry, hentry, rfl⟩
    exact Std.isLE_compare.1 ((getLast?_distinct hlastStep).2 _ (List.mem_map_of_mem hentry))
  · exact ⟨first, mem_of_firstMinOn? hfirst, rfl⟩
  · rintro _ ⟨entry, hentry, rfl⟩
    exact Instant.isLE_compare.1 (isLE_of_firstMinOn? hfirst hentry)
  · exact ⟨last, mem_of_firstMaxOn? hlast, rfl⟩
  · rintro _ ⟨entry, hentry, rfl⟩
    exact Instant.isLE_compare.1 (isLE_of_firstMaxOn? hlast hentry)

namespace SumsUp

variable {rank : UInt32}

/-- A journey starts at a rank below all others if some entry has it. -/
theorem firstStep_eq_iff (h : journey.SumsUp entries)
    (hle : ∀ entry ∈ entries, rank ≤ entry.stepRank) :
    journey.firstStep = rank ↔ rank ∈ Entry.ranks entries := by
  obtain ⟨⟨first, hfirst, hrank⟩, hleast⟩ := h.firstStep
  constructor
  · rintro rfl
    exact ⟨first, hfirst, hrank⟩
  · intro hmem
    exact Std.le_antisymm (hleast hmem) (hrank ▸ hle first hfirst)

/-- A journey ends at a rank if some entry has it and none is above. -/
theorem lastStep_eq_iff (h : journey.SumsUp entries) :
    journey.lastStep = rank ↔
      rank ∈ Entry.ranks entries ∧ ∀ entry ∈ entries, entry.stepRank ≤ rank := by
  obtain ⟨⟨last, hlast, hrank⟩, hgreatest⟩ := h.lastStep
  constructor
  · rintro rfl
    exact ⟨⟨last, hlast, hrank⟩, fun entry hentry => hgreatest ⟨entry, hentry, rfl⟩⟩
  · rintro ⟨hmem, hle⟩
    exact Std.le_antisymm (hrank ▸ hle last hlast) (hgreatest hmem)

end SumsUp

theorem exists_ofEntries? (user : String) (session : Option String) (dimensions : Dimensions)
    (h : entries ≠ []) : ∃ journey, ofEntries? user session dimensions entries = some journey := by
  obtain ⟨first, hfirst⟩ := exists_firstMinOn? Entry.enteredAt h
  obtain ⟨last, hlast⟩ := exists_firstMaxOn? Entry.enteredAt h
  obtain ⟨entry, hentry⟩ := List.exists_mem_of_ne_nil entries h
  have hranks : distinct (entries.map Entry.stepRank) ≠ [] :=
    List.ne_nil_of_mem (mem_distinct.2 (List.mem_map_of_mem hentry))
  obtain ⟨firstStep, hfirstStep⟩ := Option.isSome_iff_exists.1 (List.isSome_head?.2 hranks)
  obtain ⟨lastStep, hlastStep⟩ := Option.isSome_iff_exists.1 (List.getLast?_isSome.2 hranks)
  simp [ofEntries?, hfirst, hlast, hfirstStep, hlastStep]

/-- There is one journey for each key that occurs, and it sums up the entries of the key. -/
theorem ofSessions_eq (entries : List Entry) :
    ofSessions entries = (distinct (entries.map Entry.journeyKey)).filterMap fun key =>
      ofEntries? key.1 (some key.2.1) key.2.2 (Entry.ofJourney key entries) :=
  (congrArg _ (groupBy_eq Entry.journeyKey entries)).trans (List.filterMap_map ..)

theorem mem_ofSessions :
    journey ∈ ofSessions entries ↔ ∃ entry ∈ entries,
      ofEntries? entry.user (some entry.session) entry.dimensions
        (Entry.ofJourney entry.journeyKey entries) = some journey :=
  mem_filterMap_groupBy

/-- A journey of a session sums up the entries of a key. -/
theorem sumsUp_of_mem_ofSessions (h : journey ∈ ofSessions entries) :
    ∃ entry ∈ entries, journey.user = entry.user ∧ journey.session = some entry.session ∧
      journey.dimensions = entry.dimensions ∧
      journey.SumsUp (Entry.ofJourney entry.journeyKey entries) := by
  obtain ⟨entry, hentry, heq⟩ := mem_ofSessions.1 h
  exact ⟨entry, hentry, ofEntries?_eq_some heq⟩

theorem exists_ofEntries?_ofJourney {entry : Entry} (h : entry ∈ entries) :
    ∃ journey, ofEntries? entry.user (some entry.session) entry.dimensions
      (Entry.ofJourney entry.journeyKey entries) = some journey :=
  exists_ofEntries? _ _ _ (List.ne_nil_of_mem (Entry.mem_ofJourney.2 ⟨h, rfl⟩))

theorem exists_mem_ofSessions {entry : Entry} (h : entry ∈ entries) :
    ∃ journey ∈ ofSessions entries, journey.user = entry.user ∧
      journey.session = some entry.session ∧ journey.dimensions = entry.dimensions ∧
      journey.SumsUp (Entry.ofJourney entry.journeyKey entries) := by
  obtain ⟨journey, heq⟩ := exists_ofEntries?_ofJourney h
  exact ⟨journey, mem_ofSessions.2 ⟨entry, h, heq⟩, ofEntries?_eq_some heq⟩

/-- A journey that starts at the first rank comes from an entry of that rank. -/
theorem exists_first_of_mem_ofSessions (hpositive : ∀ entry ∈ entries, 1 ≤ entry.stepRank)
    (h : journey ∈ ofSessions entries) (hone : journey.firstStep = 1) :
    ∃ first ∈ entries, first.stepRank = 1 ∧ first.user = journey.user ∧
      first.dimensions = journey.dimensions ∧
      journey.SumsUp (Entry.ofJourney first.journeyKey entries) := by
  obtain ⟨entry, -, huser, -, hdimensions, hsums⟩ := sumsUp_of_mem_ofSessions h
  obtain ⟨first, hmem, hrank⟩ := (hsums.firstStep_eq_iff
    fun other hother => hpositive other (Entry.mem_ofJourney.1 hother).1).1 hone
  obtain ⟨hfirst, hkey⟩ := Entry.mem_ofJourney.1 hmem
  refine ⟨first, hfirst, hrank, ?_, ?_, hkey ▸ hsums⟩
  · rw [huser]
    exact congrArg Prod.fst hkey
  · rw [hdimensions]
    exact congrArg (fun key => key.2.2) hkey

theorem exists_mem_ofSessions_of_first (hpositive : ∀ entry ∈ entries, 1 ≤ entry.stepRank)
    {first : Entry} (h : first ∈ entries) (hone : first.stepRank = 1) :
    ∃ journey ∈ ofSessions entries, journey.firstStep = 1 ∧ journey.user = first.user ∧
      journey.dimensions = first.dimensions ∧
      journey.SumsUp (Entry.ofJourney first.journeyKey entries) := by
  obtain ⟨journey, hjourney, huser, -, hdimensions, hsums⟩ := exists_mem_ofSessions h
  refine ⟨journey, hjourney, ?_, huser, hdimensions, hsums⟩
  refine (hsums.firstStep_eq_iff
    fun other hother => hpositive other (Entry.mem_ofJourney.1 hother).1).2 ⟨first, ?_, hone⟩
  exact Entry.mem_ofJourney.2 ⟨h, rfl⟩

/-- The journeys are of the keys that occur, each once. -/
theorem map_key_ofSessions (entries : List Entry) :
    (ofSessions entries).map (fun journey => (journey.user, journey.session, journey.dimensions)) =
      (distinct (entries.map Entry.journeyKey)).map fun key => (key.1, some key.2.1, key.2.2) := by
  have hkeys : ∀ key ∈ distinct (entries.map Entry.journeyKey),
      (ofEntries? key.1 (some key.2.1) key.2.2 (Entry.ofJourney key entries)).map
        (fun journey => (journey.user, journey.session, journey.dimensions)) =
          some (key.1, some key.2.1, key.2.2) := by
    intro key hkey
    obtain ⟨entry, hentry, rfl⟩ := List.mem_map.1 (mem_distinct.1 hkey)
    obtain ⟨journey, heq⟩ := exists_ofEntries?_ofJourney hentry
    obtain ⟨huser, hsession, hdimensions, -⟩ := ofEntries?_eq_some heq
    refine (congrArg (Option.map _) heq).trans ?_
    rw [Option.map_some, huser, hsession, hdimensions]
    rfl
  rw [ofSessions_eq, List.map_filterMap, List.filterMap_congr hkeys]
  exact congrFun List.filterMap_eq_map' _

/-- No two journeys are of the same user, session and map. -/
theorem nodup_key_ofSessions (entries : List Entry) :
    ((ofSessions entries).map fun journey =>
      (journey.user, journey.session, journey.dimensions)).Nodup := by
  rw [map_key_ofSessions]
  refine (nodup_distinct _).map fun a b heq => ?_
  simpa [Prod.ext_iff] using heq

section Unified

variable (hunified : ∀ a ∈ entries, ∀ b ∈ entries, a.sessionKey = b.sessionKey →
  a.dimensions = b.dimensions)
include hunified

/-- Where the entries of a session carry one map, the journeys are of the sessions, each once. -/
theorem map_session_ofSessions :
    (ofSessions entries).map (fun journey => (journey.user, journey.session)) =
      (distinct (entries.map Entry.sessionKey)).map fun key => (key.1, some key.2) := by
  have hsessions : (distinct (entries.map Entry.journeyKey)).map (fun key => (key.1, key.2.1)) =
      distinct (entries.map Entry.sessionKey) := by
    refine (map_distinct fun a ha b hb hlt => ?_).trans (congrArg distinct (List.map_map ..))
    obtain ⟨entry, hentry, rfl⟩ := List.mem_map.1 ha
    obtain ⟨other, hother, rfl⟩ := List.mem_map.1 hb
    -- two keys of one session would have the same map, and so be equal
    rcases compare_pair_eq_lt.1 hlt with huser | ⟨huser, hrest⟩
    · exact compare_pair_eq_lt.2 (.inl huser)
    · rcases compare_pair_eq_lt.1 hrest with hsession | ⟨hsession, hdimensions⟩
      · exact compare_pair_eq_lt.2 (.inr ⟨huser, hsession⟩)
      · have hsame : entry.dimensions = other.dimensions :=
          hunified entry hentry other hother (Prod.ext huser hsession)
        exact absurd hsame (ne_of_compare_lt hdimensions)
  calc (ofSessions entries).map (fun journey => (journey.user, journey.session))
    _ = ((ofSessions entries).map fun journey =>
          (journey.user, journey.session, journey.dimensions)).map
            fun key => (key.1, key.2.1) := by
      rw [List.map_map]
      rfl
    _ = ((distinct (entries.map Entry.journeyKey)).map fun key => (key.1, key.2.1)).map
          fun key => (key.1, some key.2) := by
      rw [map_key_ofSessions, List.map_map, List.map_map]
      rfl
    _ = (distinct (entries.map Entry.sessionKey)).map fun key => (key.1, some key.2) := by
      rw [hsessions]

theorem length_ofSessions :
    (ofSessions entries).length = { key | ∃ entry ∈ entries, entry.sessionKey = key }.ncard := by
  have hlength := congrArg List.length (map_session_ofSessions hunified)
  rw [List.length_map, List.length_map, length_distinct] at hlength
  rw [hlength]
  simp only [List.mem_map]

theorem ofJourney_eq_ofSession {entry : Entry} (h : entry ∈ entries) :
    Entry.ofJourney entry.journeyKey entries = Entry.ofSession entry.sessionKey entries := by
  refine List.filter_congr fun other hother => decide_eq_decide.2 ?_
  constructor
  · intro hkey
    exact congrArg (fun key => (key.1, key.2.1)) hkey
  · intro hkey
    obtain ⟨huser, hsession⟩ := Prod.mk.inj hkey
    exact Prod.ext huser (Prod.ext hsession (hunified other hother entry h hkey))

/-- The journey of a session then sums up all of its entries. -/
theorem exists_mem_ofSessions_of_unified {entry : Entry} (h : entry ∈ entries) :
    ∃ journey ∈ ofSessions entries, journey.user = entry.user ∧
      journey.session = some entry.session ∧ journey.dimensions = entry.dimensions ∧
      journey.SumsUp (Entry.ofSession entry.sessionKey entries) := by
  rw [← ofJourney_eq_ofSession hunified h]
  exact exists_mem_ofSessions h

end Unified

theorem mem_ofUsers :
    journey ∈ ofUsers entries ↔ ∃ entry ∈ entries,
      ofEntries? entry.user none entry.dimensions (entries.filter fun other =>
        (other.user, other.dimensions) = (entry.user, entry.dimensions)) = some journey :=
  mem_filterMap_groupBy

theorem ascending_ofUsers (entries : List Entry) :
    Ascending (fun journey => (journey.user, journey.dimensions)) (ofUsers entries) := by
  refine ascending_filterMap_groupBy fun group _ journey h => ?_
  obtain ⟨huser, -, hdimensions, -⟩ := ofEntries?_eq_some h
  exact Prod.ext huser hdimensions

/-- The user of an entry has a journey of its dimension map. -/
theorem exists_mem_ofUsers {entry : Entry} (h : entry ∈ entries) :
    ∃ journey ∈ ofUsers entries, journey.user = entry.user ∧
      journey.dimensions = entry.dimensions := by
  have hne : entries.filter (fun other =>
      (other.user, other.dimensions) = (entry.user, entry.dimensions)) ≠ [] :=
    List.ne_nil_of_mem (List.mem_filter.2 ⟨h, decide_eq_true rfl⟩)
  obtain ⟨journey, heq⟩ := exists_ofEntries? entry.user none entry.dimensions hne
  obtain ⟨huser, -, hdimensions, -⟩ := ofEntries?_eq_some heq
  exact ⟨journey, mem_ofUsers.2 ⟨entry, h, heq⟩, huser, hdimensions⟩

/-- Every user with an entry of a dimension map has one journey of that map. -/
theorem length_ofUsers_of_dimensions (entries : List Entry) (dimensions : Dimensions) :
    ((ofUsers entries).filter fun journey => journey.dimensions = dimensions).length =
      (Entry.usersOf entries dimensions).ncard := by
  let ofMap := (ofUsers entries).filter fun journey => journey.dimensions = dimensions
  have hmap : ∀ journey ∈ ofMap, journey ∈ ofUsers entries ∧ journey.dimensions = dimensions :=
    fun journey h => ⟨(List.mem_filter.1 h).1, of_decide_eq_true (List.mem_filter.1 h).2⟩
  -- journeys have different keys, and with one map these differ in their users
  have hnodup : (ofMap.map Journey.user).Nodup := by
    have hasc : Ascending (fun journey => (journey.user, journey.dimensions)) ofMap :=
      (ascending_ofUsers entries).filter _
    have hkeys := List.pairwise_map.1 hasc.nodup_map
    refine List.pairwise_map.2 (hkeys.imp_of_mem fun {a b} ha hb hne heq => hne ?_)
    exact Prod.ext heq ((hmap a ha).2.trans (hmap b hb).2.symm)
  have hmem : {user | user ∈ ofMap.map Journey.user} = Entry.usersOf entries dimensions := by
    ext user
    constructor
    · intro h
      obtain ⟨journey, hmem, rfl⟩ := List.mem_map.1 h
      obtain ⟨hjourney, rfl⟩ := hmap journey hmem
      obtain ⟨entry, hentry, heq⟩ := mem_ofUsers.1 hjourney
      obtain ⟨huser, -, hdimensions, -⟩ := ofEntries?_eq_some heq
      exact ⟨entry, hentry, hdimensions.symm, huser.symm⟩
    · rintro ⟨entry, hentry, rfl, rfl⟩
      obtain ⟨journey, hjourney, huser, hdimensions⟩ := exists_mem_ofUsers hentry
      refine List.mem_map.2 ⟨journey, List.mem_filter.2 ⟨hjourney, ?_⟩, huser⟩
      exact decide_eq_true hdimensions
  rw [← hmem, ncard_of_nodup hnodup, List.length_map]

/-- Signals have no part in a journey. -/
theorem ofEntries?_map_bare (user : String) (session : Option String) (dimensions : Dimensions)
    (entries : List Entry) :
    ofEntries? user session dimensions (entries.map Entry.bare) =
      ofEntries? user session dimensions entries := by
  have hfirst : firstMinOn? Entry.enteredAt (entries.map Entry.bare) =
      (firstMinOn? Entry.enteredAt entries).map Entry.bare := firstMinOn?_map ..
  have hlast : firstMaxOn? Entry.enteredAt (entries.map Entry.bare) =
      (firstMaxOn? Entry.enteredAt entries).map Entry.bare := firstMaxOn?_map ..
  unfold ofEntries?
  rw [hfirst, hlast, List.map_map, List.map_map]
  cases firstMinOn? Entry.enteredAt entries with
  | none => rfl
  | some first => cases firstMaxOn? Entry.enteredAt entries <;> rfl

theorem ofSessions_map_bare (entries : List Entry) :
    ofSessions (entries.map Entry.bare) = ofSessions entries := by
  unfold ofSessions
  rw [groupBy_map, List.filterMap_map]
  exact List.filterMap_congr fun group _ => ofEntries?_map_bare ..

theorem ofUsers_map_bare (entries : List Entry) :
    ofUsers (entries.map Entry.bare) = ofUsers entries := by
  unfold ofUsers
  rw [groupBy_map, List.filterMap_map]
  exact List.filterMap_congr fun group _ => ofEntries?_map_bare ..

/-- The sessions of some users have their journeys without the other users. -/
theorem ofSessions_filter (q : String → Bool) (entries : List Entry) :
    ofSessions (entries.filter fun entry => q entry.user) =
      (ofSessions entries).filter fun journey => q journey.user := by
  refine filterMap_groupBy_filter Entry.journeyKey (p := fun key => q key.1)
    fun group _ journey h => ?_
  rw [(ofEntries?_eq_some h).1]

theorem ofUsers_filter (q : String → Bool) (entries : List Entry) :
    ofUsers (entries.filter fun entry => q entry.user) =
      (ofUsers entries).filter fun journey => q journey.user := by
  refine filterMap_groupBy_filter (fun entry : Entry => (entry.user, entry.dimensions))
    (p := fun key => q key.1) fun group _ journey h => ?_
  rw [(ofEntries?_eq_some h).1]

/-- What a journey says apart from its first step and its counts. -/
def span (journey : Journey) :
    String × Option String × Dimensions × Instant × Instant × UInt32 :=
  (journey.user, journey.session, journey.dimensions, journey.firstEnteredAt,
    journey.lastEnteredAt, journey.lastStep)

/-- Entries among others, of which none is above all of them and none has a time of its own, have
a journey of the same span. -/
theorem map_span_ofEntries?_eq {others : List Entry}
    (hkept : ∀ entry ∈ entries, ∃ other ∈ others, other.enteredAt = entry.enteredAt ∧
      other.stepRank = entry.stepRank)
    (hadded : ∀ other ∈ others, ∃ entry ∈ entries, entry.enteredAt = other.enteredAt ∧
      other.stepRank ≤ entry.stepRank) :
    (ofEntries? user session dimensions others).map span =
      (ofEntries? user session dimensions entries).map span := by
  by_cases hnil : entries = []
  · have hothers : others = [] := by
      refine List.eq_nil_iff_forall_not_mem.2 fun other hother => ?_
      obtain ⟨entry, hentry, -⟩ := hadded other hother
      rw [hnil] at hentry
      cases hentry
    rw [hnil, hothers]
  · obtain ⟨entry, hentry⟩ := List.exists_mem_of_ne_nil entries hnil
    obtain ⟨other, hother, -⟩ := hkept entry hentry
    obtain ⟨a, ha⟩ := exists_ofEntries? user session dimensions (List.ne_nil_of_mem hother)
    obtain ⟨b, hb⟩ := exists_ofEntries? user session dimensions hnil
    obtain ⟨ha_user, ha_session, ha_dimensions, ha_sums⟩ := ofEntries?_eq_some ha
    obtain ⟨hb_user, hb_session, hb_dimensions, hb_sums⟩ := ofEntries?_eq_some hb
    -- the same times occur in both, and the same greatest rank
    have htimes : Entry.times others = Entry.times entries := by
      ext time
      constructor
      · rintro ⟨other, hother, rfl⟩
        obtain ⟨entry, hentry, htime, -⟩ := hadded other hother
        exact ⟨entry, hentry, htime⟩
      · rintro ⟨entry, hentry, rfl⟩
        obtain ⟨other, hother, htime, -⟩ := hkept entry hentry
        exact ⟨other, hother, htime⟩
    have hfirst : a.firstEnteredAt = b.firstEnteredAt :=
      (htimes ▸ ha_sums.firstEnteredAt).unique hb_sums.firstEnteredAt
    have hlast : a.lastEnteredAt = b.lastEnteredAt :=
      (htimes ▸ ha_sums.lastEnteredAt).unique hb_sums.lastEnteredAt
    have hstep : a.lastStep = b.lastStep := by
      obtain ⟨⟨other, hother, hother_rank⟩, hother_greatest⟩ := ha_sums.lastStep
      obtain ⟨⟨entry, hentry, hentry_rank⟩, hentry_greatest⟩ := hb_sums.lastStep
      obtain ⟨above, habove, -, hle⟩ := hadded other hother
      obtain ⟨same, hsame, -, heq⟩ := hkept entry hentry
      refine Std.le_antisymm ?_ ?_
      · exact Std.le_trans (hother_rank ▸ hle) (hentry_greatest ⟨above, habove, rfl⟩)
      · exact hother_greatest ⟨same, hsame, heq.trans hentry_rank⟩
    rw [ha, hb, Option.map_some, Option.map_some, span, span, ha_user, hb_user, ha_session,
      hb_session, ha_dimensions, hb_dimensions, hfirst, hlast, hstep]

/-- Two lists of entries have journeys of the same span if one of them only adds entries at times
and below ranks that the other has in the same journey. -/
theorem map_span_ofSessions_eq {others : List Entry}
    (hkept : ∀ entry ∈ entries, ∃ other ∈ others, other.journeyKey = entry.journeyKey ∧
      other.enteredAt = entry.enteredAt ∧ other.stepRank = entry.stepRank)
    (hadded : ∀ other ∈ others, ∃ entry ∈ entries, entry.journeyKey = other.journeyKey ∧
      entry.enteredAt = other.enteredAt ∧ other.stepRank ≤ entry.stepRank) :
    (ofSessions others).map span = (ofSessions entries).map span := by
  -- both lists have journeys of the same keys, and for each key one of the same span
  have hkeys : distinct (others.map Entry.journeyKey) =
      distinct (entries.map Entry.journeyKey) := by
    refine (ascending_distinct _).eq_of_mem_iff (ascending_distinct _) fun key => ?_
    rw [mem_distinct, mem_distinct, List.mem_map, List.mem_map]
    constructor
    · rintro ⟨other, hother, rfl⟩
      obtain ⟨entry, hentry, hkey, -⟩ := hadded other hother
      exact ⟨entry, hentry, hkey⟩
    · rintro ⟨entry, hentry, rfl⟩
      obtain ⟨other, hother, hkey, -⟩ := hkept entry hentry
      exact ⟨other, hother, hkey⟩
  rw [ofSessions_eq, ofSessions_eq, hkeys, List.map_filterMap, List.map_filterMap]
  refine List.filterMap_congr fun key _ => map_span_ofEntries?_eq ?_ ?_
  · intro entry hmem
    obtain ⟨hentry, rfl⟩ := Entry.mem_ofJourney.1 hmem
    obtain ⟨other, hother, hkey, hsame⟩ := hkept entry hentry
    exact ⟨other, Entry.mem_ofJourney.2 ⟨hother, hkey⟩, hsame⟩
  · intro other hmem
    obtain ⟨hother, rfl⟩ := Entry.mem_ofJourney.1 hmem
    obtain ⟨entry, hentry, hkey, hbelow⟩ := hadded other hother
    exact ⟨entry, Entry.mem_ofJourney.2 ⟨hentry, hkey⟩, hbelow⟩

end Journey

end Funnel
