import Funnel.Proofs.Metric.Means

/-!
# Which of a user's sessions reached a step

The sessions of a user in a combination are numbered in order of their start. Whatever the entries
are, the table of numbers knows all sessions that are looked up and gives them different numbers.
-/

namespace Funnel

open Std Time

namespace Journey

variable {entries : List Entry} {sessions : List Journey} {journey other : Journey}

/-- When a session starts, and its id. -/
def onset (journey : Journey) : Instant × String :=
  (journey.firstEnteredAt, journey.session.getD "")

/-- The number of a session among those of its user and map: how many of them start no later, an
earlier id counting as an earlier start. -/
def number (sessions : List Journey) (journey : Journey) : Nat :=
  ((journey.alike sessions).filter fun other => (compare other.onset journey.onset).isLE).length

/-- The numbers of the sessions of a user in a map that have an entry of some kind. -/
def numbersWhere (entries : List Entry) (dimensions : Dimensions) (p : Entry → Prop)
    (user : String) : Set Nat :=
  { number | ∃ journey ∈ ofSessions entries, journey.user = user ∧
    journey.dimensions = dimensions ∧ (∃ entry ∈ journey.members entries, p entry) ∧
    journey.number (ofSessions entries) = number }

theorem alike_of_mem_alike (h : other ∈ journey.alike sessions) :
    other.alike sessions = journey.alike sessions := by
  obtain ⟨-, huser, hdimensions⟩ := mem_alike.1 h
  rw [alike, huser, hdimensions, alike]

theorem isSome_session (h : journey ∈ ofSessions entries) : journey.session.isSome := by
  obtain ⟨entry, -, -, hsession, -⟩ := sumsUp_of_mem_ofSessions h
  rw [hsession]
  rfl

/-- The sessions of one user and map have different ids. -/
theorem nodup_session_alike (entries : List Entry) (journey : Journey) :
    ((journey.alike (ofSessions entries)).map fun other => other.session.getD "").Nodup := by
  have hkeys := (nodup_key_ofSessions entries).sublist
    ((List.filter_sublist (p := fun other : Journey =>
      (other.user, other.dimensions) = (journey.user, journey.dimensions))).map _)
  refine List.pairwise_map.2 ((List.pairwise_map.1 hkeys).imp_of_mem fun {a b} ha hb hne heq => ?_)
  obtain ⟨ha, ha_user, ha_dimensions⟩ := mem_alike.1 ha
  obtain ⟨hb, hb_user, hb_dimensions⟩ := mem_alike.1 hb
  obtain ⟨ida, hida⟩ := Option.isSome_iff_exists.1 (isSome_session ha)
  obtain ⟨idb, hidb⟩ := Option.isSome_iff_exists.1 (isSome_session hb)
  rw [hida, hidb] at heq
  refine hne ?_
  rw [ha_user, hb_user, ha_dimensions, hb_dimensions, hida, hidb]
  exact congrArg (fun id => (journey.user, some id, journey.dimensions)) heq

/-- In order of start the sessions of one user and map have the numbers from one on. -/
theorem map_number_sortOn (entries : List Entry) (journey : Journey) :
    (sortOn onset (journey.alike (ofSessions entries))).map (number (ofSessions entries)) =
      List.range' 1 (journey.alike (ofSessions entries)).length := by
  have honsets : ((journey.alike (ofSessions entries)).map onset).Nodup := by
    refine List.Nodup.of_map Prod.snd ?_
    rw [List.map_map]
    exact nodup_session_alike entries journey
  have hperm := sortOn_perm onset (journey.alike (ofSessions entries))
  rw [← hperm.length_eq, ← (ascending_sortOn honsets).map_length_filter_isLE]
  refine List.map_congr_left fun other hother => ?_
  rw [number, alike_of_mem_alike (hperm.mem_iff.1 hother)]
  exact (hperm.filter _).length_eq.symm

end Journey

namespace Slice

open Journey Funnel.Metric

variable {entries : List Entry} {dimensions : Dimensions} {journey : Journey}

/-- The sessions of a combination that are of one user are those that are alike to one of them. -/
theorem sessions_sliceOf_alike (h : journey ∈ (sliceOf entries dimensions).sessions) :
    (sliceOf entries dimensions).sessions.filter (fun other => other.user = journey.user) =
      journey.alike (ofSessions entries) := by
  obtain ⟨-, rfl⟩ := mem_sessions_sliceOf.1 h
  refine (List.filter_filter ..).trans (List.filter_congr fun other _ => ?_)
  exact Bool.eq_iff_iff.2 (by simp)

/-- The sessions of one user and map in the table, in order of start. -/
theorem numbered_alike (entries : List Entry) (journey : Journey) :
    ((ordinals.distinctRuns ((sortOn onset (journey.alike (ofSessions entries))).map
        fun other => other.session.getD "")).zipIdx 1).map
      (fun (session, ordinal) => ((journey.user, session), ordinal)) =
    (sortOn onset (journey.alike (ofSessions entries))).map fun other =>
      ((journey.user, other.session.getD ""), other.number (ofSessions entries)) := by
  have hperm := sortOn_perm onset (journey.alike (ofSessions entries))
  have hnodup := (hperm.map fun other => other.session.getD "").nodup_iff.2
    (nodup_session_alike entries journey)
  have hruns : ordinals.distinctRuns _ = _ := map_fst_runs_of_nodup hnodup
  rw [hruns, List.zipIdx_eq_zip_range', List.length_map, hperm.length_eq, ← map_number_sortOn,
    List.zip_map', List.map_map]
  rfl

/-- The table has the number of each session under its user and id, and nothing else. -/
theorem mem_ordinals_iff {key : String × String} {ordinal : Nat} :
    (key, ordinal) ∈ ordinals (sliceOf entries dimensions).sessions ↔
      ∃ journey ∈ ofSessions entries, journey.dimensions = dimensions ∧
        (journey.user, journey.session.getD "") = key ∧
        journey.number (ofSessions entries) = ordinal := by
  -- a journey of one session has its id, so that no journey is left out
  have hset : (sliceOf entries dimensions).sessions.filter (·.session.isSome) =
      (sliceOf entries dimensions).sessions :=
    List.filter_eq_self.2 fun journey h => isSome_session (mem_sessions_sliceOf.1 h).1
  unfold ordinals
  rw [hset, groupBy_eq, List.flatMap_map, List.mem_flatMap]
  constructor
  · rintro ⟨user, huser, hitem⟩
    obtain ⟨journey, hjourney, rfl⟩ := List.mem_map.1 (mem_distinct.1 huser)
    dsimp only at hitem
    rw [sessions_sliceOf_alike hjourney] at hitem
    obtain ⟨other, hother, heq⟩ := List.mem_map.1 ((numbered_alike entries journey) ▸ hitem)
    obtain ⟨hother, hother_user, hother_dimensions⟩ := mem_alike.1 (mem_sortOn.1 hother)
    obtain ⟨rfl, rfl⟩ := Prod.mk.inj heq
    refine ⟨other, hother, ?_, by rw [hother_user], rfl⟩
    rw [hother_dimensions, (mem_sessions_sliceOf.1 hjourney).2]
  · rintro ⟨journey, hjourney, hdimensions, rfl, rfl⟩
    have hmem := mem_sessions_sliceOf.2 ⟨hjourney, hdimensions⟩
    refine ⟨journey.user, mem_distinct.2 (List.mem_map_of_mem hmem), ?_⟩
    dsimp only
    rw [sessions_sliceOf_alike hmem]
    refine (numbered_alike entries journey) ▸ List.mem_map.2 ⟨journey, ?_, rfl⟩
    exact mem_sortOn.2 (mem_alike.2 ⟨hjourney, rfl, rfl⟩)

/-- The table knows the session of every entry. -/
theorem lookup_ordinals {entry : Entry} (h : journey ∈ ofSessions entries)
    (hentry : entry ∈ journey.members entries) :
    (ordinals (sliceOf entries entry.dimensions).sessions).lookup entry.sessionKey =
      some (journey.number (ofSessions entries)) := by
  obtain ⟨hmem, huser, hsession, hdimensions⟩ := mem_members.1 hentry
  refine lookup_eq_some_of_mem (mem_ordinals_iff.2 ⟨journey, h, hdimensions.symm, ?_, rfl⟩) ?_
  · rw [← huser, ← hsession]
    rfl
  · intro ordinal hordinal
    obtain ⟨other, hother, hother_dimensions, hkey, rfl⟩ := mem_ordinals_iff.1 hordinal
    obtain ⟨id, hid⟩ := Option.isSome_iff_exists.1 (isSome_session hother)
    obtain ⟨hother_user, hother_session⟩ := Prod.mk.inj hkey
    -- the entry belongs to every journey under its key
    have hin : entry ∈ other.members entries := by
      refine mem_members.2 ⟨hmem, hother_user.symm, ?_, hother_dimensions.symm⟩
      rw [← hother_session, hid]
      rfl
    rw [eq_of_mem_members hother hin h hentry]

/-- The numbers that are looked up for some entries of a user are those of the sessions that have
one of them. -/
theorem mem_map_ordinal_iff {members : List Entry} {p : Entry → Prop} {user : String}
    (hmembers : ∀ entry, entry ∈ members ↔
      entry ∈ entries ∧ entry.dimensions = dimensions ∧ p entry ∧ entry.user = user) {n : Nat} :
    n ∈ members.map (ordinal (ordinals (sliceOf entries dimensions).sessions)) ↔
      n ∈ numbersWhere entries dimensions p user := by
  rw [List.mem_map]
  constructor
  · rintro ⟨entry, hentry, rfl⟩
    obtain ⟨hmem, rfl, hp, rfl⟩ := (hmembers entry).1 hentry
    obtain ⟨journey, hjourney, hin⟩ := exists_mem_members hmem
    obtain ⟨-, huser, -, hdimensions⟩ := mem_members.1 hin
    refine ⟨journey, hjourney, huser.symm, hdimensions.symm, ⟨entry, hin, hp⟩, ?_⟩
    rw [ordinal, lookup_ordinals hjourney hin, Option.getD_some]
  · rintro ⟨journey, hjourney, rfl, rfl, ⟨entry, hin, hp⟩, rfl⟩
    obtain ⟨hmem, huser, -, hdimensions⟩ := mem_members.1 hin
    refine ⟨entry, (hmembers entry).2 ⟨hmem, hdimensions, hp, huser⟩, ?_⟩
    rw [ordinal, ← hdimensions, lookup_ordinals hjourney hin, Option.getD_some]

/-- What is looked up for a user is the least number of the sessions that have one of the
entries. -/
theorem exists_leastOrdinal? {members : List Entry} {p : Entry → Prop} {user : String}
    (hmembers : ∀ entry, entry ∈ members ↔
      entry ∈ entries ∧ entry.dimensions = dimensions ∧ p entry ∧ entry.user = user)
    (hne : members ≠ []) :
    ∃ least, leastOrdinal? (ordinals (sliceOf entries dimensions).sessions) members = some least ∧
      IsLeast (numbersWhere entries dimensions p user) least := by
  obtain ⟨least, hleast⟩ := Option.isSome_iff_exists.1 (isSome_leastOrdinal? hne)
  obtain ⟨hmem, hle⟩ := List.min?_eq_some_iff.1 hleast
  refine ⟨least, hleast, (mem_map_ordinal_iff hmembers).1 hmem, fun number hnumber => ?_⟩
  exact hle number ((mem_map_ordinal_iff hmembers).2 hnumber)

end Slice

namespace Metric

open Journey

variable {entries : List Entry}

/-- Metrics of some entries tell with which of their sessions users reach a step and go on from
it. -/
structure CountsSessions (entries : List Entry) (metrics : List Metric) : Prop where
  /-- In order of start the sessions that the journey of a user sums up have the numbers from one to
  what it counts. -/
  numbered : ∀ whole ∈ ofUsers entries,
    (sortOn onset (whole.alike (ofSessions entries))).map (number (ofSessions entries)) =
      List.range' 1 whole.sessionCount
  /-- Every session is one of those, so that no number is above what the journey of the user
  counts. -/
  bounded : ∀ journey ∈ ofSessions entries, ∃ whole ∈ ofUsers entries,
    journey ∈ whole.alike (ofSessions entries) ∧
      journey.number (ofSessions entries) ≤ whole.sessionCount
  /-- The table of numbers knows the session of every entry. -/
  known : ∀ entry ∈ entries, ∃ journey ∈ ofSessions entries, entry ∈ journey.members entries ∧
    (Slice.ordinals (sliceOf entries entry.dimensions).sessions).lookup entry.sessionKey =
      some (journey.number (ofSessions entries))
  /-- The number of sessions to reach a step is averaged over the users that do, each with the least
  number of a session that has an entry of the step. -/
  reach : ∀ row ∈ metrics, ∀ dimensions rank, row.IsStage dimensions rank →
    row.starters = (Entry.usersReaching entries dimensions rank).ncard ∧
      IsMeanOver (Entry.usersReaching entries dimensions rank)
        (fun user => IsLeast (numbersWhere entries dimensions (·.stepRank = rank) user))
        Float.ofNat row.sessionsToReach
  /-- The number of sessions to go on from a step is averaged over the users that do, each with the
  least number of a session that has an entry of the step from which it went on. -/
  convert : ∀ row ∈ metrics, ∀ dimensions rank, row.IsStage dimensions rank →
    row.completers = (Entry.usersConverting entries dimensions rank).ncard ∧
      IsMeanOver (Entry.usersConverting entries dimensions rank)
        (fun user => IsLeast (numbersWhere entries dimensions
          (fun entry => entry.stepRank = rank ∧ entry.converted = true) user))
        Float.ofNat row.sessionsToConvert
  /-- Nobody goes on from a step with a session of a lower number than the first to reach it. -/
  ordered : ∀ dimensions rank, ∀ user ∈ Entry.usersConverting entries dimensions rank,
    ∃ reach convert, IsLeast (numbersWhere entries dimensions (·.stepRank = rank) user) reach ∧
      IsLeast (numbersWhere entries dimensions
        (fun entry => entry.stepRank = rank ∧ entry.converted = true) user) convert ∧
      reach ≤ convert

/-- The mean of the numbers that are looked up for the users of some entries of a combination. -/
theorem isMeanOver_leastOrdinal? {dimensions : Dimensions} {p : Entry → Prop}
    {members : List Entry} (hmembers : ∀ entry, entry ∈ members ↔
      entry ∈ entries ∧ entry.dimensions = dimensions ∧ p entry) :
    IsMeanOver (Entry.usersWhere entries fun entry => entry.dimensions = dimensions ∧ p entry)
      (fun user => IsLeast (numbersWhere entries dimensions p user)) Float.ofNat
      (mean ((groupBy Entry.user members).filterMap fun group =>
        (Slice.leastOrdinal? (Slice.ordinals (sliceOf entries dimensions).sessions) group.2).map
          Float.ofNat)) := by
  refine Entry.isMeanOver_groupBy (fun user => ?_) fun user huser => ?_
  · simp only [Entry.usersWhere, Set.mem_ofPred_eq, hmembers, and_assoc]
  · obtain ⟨entry, hentry, ⟨hdimensions, hp⟩, hentry_user⟩ := huser
    refine Slice.exists_leastOrdinal? (fun other => ?_) (List.ne_nil_of_mem (a := entry) ?_)
    · simp only [List.mem_filter, hmembers, decide_eq_true_eq, and_assoc]
    · exact List.mem_filter.2 ⟨(hmembers entry).2 ⟨hentry, hdimensions, hp⟩,
        decide_eq_true hentry_user⟩

/-- Users with a session of some kind have a first one. -/
theorem exists_isLeast_numbersWhere {dimensions : Dimensions} {p : Entry → Prop} {user : String}
    (h : user ∈ Entry.usersWhere entries fun entry => entry.dimensions = dimensions ∧ p entry) :
    ∃ ordinal, IsLeast (numbersWhere entries dimensions p user) ordinal := by
  obtain ⟨entry, hentry, ⟨rfl, hp⟩, rfl⟩ := h
  obtain ⟨journey, hjourney, hin⟩ := exists_mem_members hentry
  obtain ⟨-, huser, -, hdimensions⟩ := mem_members.1 hin
  have hne : ∃ ordinal, ordinal ∈ numbersWhere entries entry.dimensions p entry.user :=
    ⟨_, journey, hjourney, huser.symm, hdimensions.symm, ⟨entry, hin, hp⟩, rfl⟩
  classical
  exact ⟨Nat.find hne, Nat.find_spec hne, fun ordinal hordinal => Nat.find_min' hne hordinal⟩

/-- The metrics of some entries count sessions by the start of their journeys. -/
theorem countsSessions_ofEntries (steps : List Step) (declared : List String)
    (entries : List Entry) : CountsSessions entries (ofEntries steps declared entries) where
  numbered whole hwhole := by
    rw [map_number_sortOn, (rollsUp_of_mem_ofUsers hwhole).sessionCount]
  bounded journey hjourney := by
    obtain ⟨whole, hwhole, huser, hdimensions⟩ := exists_mem_ofUsers_of_session hjourney
    have halike : journey ∈ whole.alike (ofSessions entries) :=
      mem_alike.2 ⟨hjourney, huser.symm, hdimensions.symm⟩
    refine ⟨whole, hwhole, halike, ?_⟩
    rw [(rollsUp_of_mem_ofUsers hwhole).sessionCount, ← alike_of_mem_alike halike]
    exact List.length_filter_le ..
  known entry hentry := by
    obtain ⟨journey, hjourney, hin⟩ := exists_mem_members hentry
    exact ⟨journey, hjourney, hin, Slice.lookup_ordinals hjourney hin⟩
  reach row hrow dimensions rank hstage := by
    refine ⟨(hstage.counts hrow).1, ?_⟩
    obtain ⟨step, -, rfl, rfl⟩ := hstage.exists_step hrow
    refine isMeanOver_leastOrdinal? fun entry => ?_
    rw [entries_sliceOf_filter, Entry.mem_ofStep]
  convert row hrow dimensions rank hstage := by
    refine ⟨(hstage.counts hrow).2, ?_⟩
    obtain ⟨step, -, rfl, rfl⟩ := hstage.exists_step hrow
    refine isMeanOver_leastOrdinal? fun entry => ?_
    rw [entries_sliceOf_filter, List.mem_filter, Entry.mem_ofStep, and_assoc, and_assoc]
  ordered dimensions rank user huser := by
    obtain ⟨reach, hreach⟩ := exists_isLeast_numbersWhere
      (Entry.usersConverting_subset entries dimensions rank huser)
    obtain ⟨convert, hconvert⟩ := exists_isLeast_numbersWhere huser
    refine ⟨reach, convert, hreach, hconvert, hreach.2 ?_⟩
    -- a session that goes on from the rank has reached it, so the least number is no greater
    obtain ⟨journey, hjourney, huser, hdimensions, ⟨entry, hin, hrank, -⟩, hnumber⟩ := hconvert.1
    exact ⟨journey, hjourney, huser, hdimensions, ⟨entry, hin, hrank⟩, hnumber⟩

end Metric

end Funnel
