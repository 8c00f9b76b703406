import Funnel.Proofs.Entry.Conversion
import Funnel.Proofs.Entry.Signals
import Funnel.Proofs.Metric.Means

/-!
# What the averages about time are taken over

The time to a step is averaged over its entries. The time to go on is averaged over users, so that
each weighs once, however many of the user's sessions went on.
-/

namespace Funnel

open Std Time

namespace Entry

variable {entries : List Entry} {entry : Entry}

/-- An entry is a number of whole seconds behind the earliest one of its session, and no further
than the session's journey takes. -/
structure ReachedAfter (entries : List Entry) (entry : Entry) (seconds : Int) : Prop where
  start : ∃ start, IsLeast (times (ofSession entry.sessionKey entries)) start ∧
    seconds * 1000000 ≤ entry.enteredAt.micros - start.micros ∧
      entry.enteredAt.micros - start.micros < (seconds + 1) * 1000000
  nonneg : 0 ≤ seconds
  le : ∃ journey ∈ Journey.ofSessions entries, entry ∈ journey.members entries ∧
    seconds ≤ journey.elapsedSeconds

end Entry

namespace Journey

/-- The sessions of a map that start the funnel. -/
def starting (entries : List Entry) (dimensions : Dimensions) : List Journey :=
  (ofSessions entries).filter fun journey => journey.dimensions = dimensions ∧ journey.firstStep = 1

/-- Those of them that get to the last step as well. -/
def completing (entries : List Entry) (dimensions : Dimensions) (last : UInt32) : List Journey :=
  (starting entries dimensions).filter fun journey => journey.lastStep = last

/-- The users of some sessions. -/
def usersOf (journeys : List Journey) : Set String :=
  { user | ∃ journey ∈ journeys, journey.user = user }

/-- The journey of a user in a map counts a number of sessions. -/
def CountsFor (entries : List Entry) (dimensions : Dimensions) (user : String) (count : Nat) :
    Prop :=
  ∃ whole ∈ ofUsers entries, whole.user = user ∧ whole.dimensions = dimensions ∧
    whole.sessionCount = count

end Journey

namespace Metric

open Journey

/-- Metrics of some entries tell how long it takes on average to reach a step and to go on from it,
and how long and how many sessions it takes from end to end. -/
structure AveragesTimes (entries : List Entry) (last : UInt32) (metrics : List Metric) : Prop where
  /-- The time to a step is averaged over its entries, in their order. -/
  reach : ∀ row ∈ metrics, ∀ dimensions rank, row.IsStage dimensions rank →
    IsMean (Entry.ofStep dimensions rank entries) (Entry.ReachedAfter entries) Float.ofInt
      row.secondsToReach
  /-- The time to go on is averaged over users, for each of them over the entries, in their order,
  from which their sessions went on. -/
  convert : ∀ row ∈ metrics, ∀ dimensions rank, row.IsStage dimensions rank →
    row.completers = (Entry.usersConverting entries dimensions rank).ncard ∧
      IsMeanOver (Entry.usersConverting entries dimensions rank)
        (fun user average => IsMean ((Entry.ofStep dimensions rank entries).filter fun entry =>
            entry.converted = true ∧ entry.user = user)
          (fun entry seconds => entry.secondsToConvert = some seconds) Float.ofInt (some average))
        id row.secondsToConvert
  /-- The time from end to end is averaged over the sessions that start the funnel, and over those
  of them that complete it. -/
  elapsed : ∀ total ∈ metrics, ∀ dimensions, total.IsEndToEnd dimensions →
    IsMeanOf ((starting entries dimensions).map fun journey => Float.ofInt journey.elapsedSeconds)
        total.secondsToReach ∧
      IsMeanOf ((completing entries dimensions last).map fun journey =>
        Float.ofInt journey.elapsedSeconds) total.secondsToConvert
  /-- The number of sessions is averaged over the users that start the funnel. -/
  starters : ∀ total ∈ metrics, ∀ dimensions, total.IsEndToEnd dimensions →
    total.starters = (usersOf (starting entries dimensions)).ncard ∧
      IsMeanOver (usersOf (starting entries dimensions)) (CountsFor entries dimensions) Float.ofNat
        total.sessionsToReach
  /-- So it is over the users that complete it. -/
  completers : ∀ total ∈ metrics, ∀ dimensions, total.IsEndToEnd dimensions →
    total.completers = (usersOf (completing entries dimensions last)).ncard ∧
      IsMeanOver (usersOf (completing entries dimensions last)) (CountsFor entries dimensions)
        Float.ofNat total.sessionsToConvert

end Metric

namespace Entry

variable {entries : List Entry} {entry : Entry} {dimensions : Dimensions} {rank : UInt32}

/-- Where the entries of a session carry one map, what is looked up for an entry is how long after
the start of its session it is. -/
theorem exists_reachedAfter (hunified : ∀ a ∈ entries, ∀ b ∈ entries,
      a.sessionKey = b.sessionKey → a.dimensions = b.dimensions) (h : entry ∈ entries) :
    ∃ seconds, ((Metric.sliceOf entries entry.dimensions).sessionStart? entry).map
        (fun start => entry.enteredAt.secondsSince start) = some seconds ∧
      ReachedAfter entries entry seconds := by
  obtain ⟨journey, hjourney, hin⟩ := Journey.exists_mem_members h
  have hsums := (Journey.sumsUp_members hjourney).1
  have htime : entry.enteredAt ∈ times (journey.members entries) := ⟨entry, hin, rfl⟩
  have hstart : journey.firstEnteredAt ≤ entry.enteredAt := hsums.firstEnteredAt.2 htime
  have hsession : journey.members entries = ofSession entry.sessionKey entries :=
    (Journey.members_eq_ofJourney hin).trans (Journey.ofJourney_eq_ofSession hunified h)
  refine ⟨entry.enteredAt.secondsSince journey.firstEnteredAt, ?_, ?_, ?_, ?_⟩
  · rw [Metric.sessionStart?_eq_some hjourney hin, Option.map_some]
  · refine ⟨journey.firstEnteredAt, hsession ▸ hsums.firstEnteredAt,
      Instant.secondsSince_mul_le hstart, ?_⟩
    have hdropped := Instant.sub_le_secondsSince_mul hstart
    rw [Instant.microsPerSecond] at hdropped
    omega
  · exact Instant.secondsSince_nonneg hstart
  · refine ⟨journey, hjourney, hin, ?_⟩
    obtain ⟨first, -, heq⟩ := Journey.mem_ofSessions.1 hjourney
    rw [(Journey.counts_of_ofEntries? heq).2.2]
    exact Instant.secondsSince_le (hsums.lastEnteredAt.2 htime) _

/-- The mean of the times that it took to go on from some entries. -/
def meanSecondsToConvert (entries : List Entry) : Option Float :=
  mean (entries.filterMap fun entry => entry.secondsToConvert.map Float.ofInt)

/-- What is averaged for a user that went on from a step. -/
theorem exists_isMean_secondsToConvert {user : String}
    (hseconds : ∀ entry ∈ entries, entry.converted = true → entry.secondsToConvert.isSome)
    (h : user ∈ usersConverting entries dimensions rank) :
    ∃ average, meanSecondsToConvert (((ofStep dimensions rank entries).filter converted).filter
        fun entry => entry.user = user) = some average ∧
      IsMean ((ofStep dimensions rank entries).filter fun entry =>
          entry.converted = true ∧ entry.user = user)
        (fun entry seconds => entry.secondsToConvert = some seconds) Float.ofInt
        (some average) := by
  obtain ⟨entry, hentry, ⟨hdimensions, hrank, hconverted⟩, huser⟩ := h
  have hfilter := filter_filter_and (fun entry : Entry => entry.converted = true)
    (fun entry => entry.user = user) (ofStep dimensions rank entries)
  simp only [Bool.decide_eq_true] at hfilter
  rw [hfilter, meanSecondsToConvert]
  refine exists_isMean_filterMap (List.ne_nil_of_mem (a := entry) ?_) fun other hother => ?_
  · refine List.mem_filter.2 ⟨mem_ofStep.2 ⟨hentry, hdimensions, hrank⟩, ?_⟩
    exact decide_eq_true ⟨hconverted, huser⟩
  · obtain ⟨hother, hgone⟩ := List.mem_filter.1 hother
    obtain ⟨seconds, heq⟩ := Option.isSome_iff_exists.1
      (hseconds other (mem_ofStep.1 hother).1 (of_decide_eq_true hgone).1)
    exact ⟨seconds, heq, heq⟩

end Entry

namespace Metric

open Journey

variable {entries : List Entry} {dimensions : Dimensions}

theorem isMean_secondsToReach (hunified : ∀ a ∈ entries, ∀ b ∈ entries,
      a.sessionKey = b.sessionKey → a.dimensions = b.dimensions)
    (table : List ((String × String) × Nat)) (step : Step) :
    IsMean (Entry.ofStep dimensions step.rank entries) (Entry.ReachedAfter entries) Float.ofInt
      ((sliceOf entries dimensions).stepMetric table step).secondsToReach := by
  show IsMean _ _ _ (mean (((sliceOf entries dimensions).entries.filter _).filterMap fun entry =>
    ((sliceOf entries dimensions).sessionStart? entry).map fun start =>
      Float.ofInt (entry.enteredAt.secondsSince start)))
  have hfind : ∀ entry : Entry, (((sliceOf entries dimensions).sessionStart? entry).map fun start =>
        Float.ofInt (entry.enteredAt.secondsSince start)) =
      (((sliceOf entries dimensions).sessionStart? entry).map fun start =>
        entry.enteredAt.secondsSince start).map Float.ofInt := by
    intro entry
    rw [Option.map_map]
    rfl
  simp only [entries_sliceOf_filter, hfind]
  refine isMean_filterMap fun entry hentry => ?_
  obtain ⟨hmem, rfl, -⟩ := Entry.mem_ofStep.1 hentry
  exact Entry.exists_reachedAfter hunified hmem

theorem isMeanOver_secondsToConvert
    (hseconds : ∀ entry ∈ entries, entry.converted = true → entry.secondsToConvert.isSome)
    (table : List ((String × String) × Nat)) (step : Step) :
    IsMeanOver (Entry.usersConverting entries dimensions step.rank)
      (fun user average => IsMean ((Entry.ofStep dimensions step.rank entries).filter fun entry =>
          entry.converted = true ∧ entry.user = user)
        (fun entry seconds => entry.secondsToConvert = some seconds) Float.ofInt (some average))
      id ((sliceOf entries dimensions).stepMetric table step).secondsToConvert := by
  show IsMeanOver _ _ _ (mean ((groupBy Entry.user
    (((sliceOf entries dimensions).entries.filter _).filter Entry.converted)).filterMap fun group =>
      Entry.meanSecondsToConvert group.2))
  have hmap : (fun group : String × List Entry => Entry.meanSecondsToConvert group.2) =
      fun group => (Entry.meanSecondsToConvert group.2).map id := by
    funext group
    rw [Option.map_id, id_eq]
  rw [entries_sliceOf_filter, hmap]
  refine Entry.isMeanOver_groupBy (fun user => ?_) fun user huser => ?_
  · simp only [Entry.usersConverting, Entry.usersWhere, Set.mem_ofPred_eq, List.mem_filter,
      Entry.mem_ofStep, and_assoc]
  · exact Entry.exists_isMean_secondsToConvert hseconds huser

theorem sessions_sliceOf_filter (entries : List Entry) (dimensions : Dimensions) :
    (sliceOf entries dimensions).sessions.filter (fun journey => journey.firstStep == 1) =
      starting entries dimensions :=
  filter_filter_and (·.dimensions = dimensions) (·.firstStep = 1) (ofSessions entries)

theorem length_distinct_user (journeys : List Journey) :
    (distinct (journeys.map Journey.user)).length = (usersOf journeys).ncard := by
  rw [length_distinct]
  simp only [List.mem_map, usersOf]

/-- The number of sessions is averaged over the users of some sessions. -/
theorem isMeanOver_meanSessions {journeys : List Journey}
    (h : ∀ journey ∈ journeys, journey ∈ ofSessions entries ∧ journey.dimensions = dimensions) :
    IsMeanOver (usersOf journeys) (CountsFor entries dimensions) Float.ofNat
      ((sliceOf entries dimensions).meanSessions (distinct (journeys.map Journey.user))) := by
  refine isMeanOver_distinct (fun name => List.mem_map) ?_
  rintro _ ⟨journey, hjourney, rfl⟩
  obtain ⟨hmem, rfl⟩ := h journey hjourney
  obtain ⟨whole, hwhole, huser, hdimensions⟩ := exists_mem_ofUsers_of_session hmem
  refine ⟨whole.sessionCount, ?_, whole, hwhole, huser, hdimensions, rfl⟩
  rw [← huser, ← hdimensions, sessionCount?_eq_some hwhole]

/-- The row of the whole funnel in terms of the sessions that start and complete it. -/
theorem endToEndMetric_sliceOf (entries : List Entry) (dimensions : Dimensions) (last : UInt32) :
    (sliceOf entries dimensions).endToEndMetric last =
      .ofCounts .endToEnd none dimensions
        (distinct ((starting entries dimensions).map Journey.user)).length
        (distinct ((completing entries dimensions last).map Journey.user)).length
        { secondsToReach := mean ((starting entries dimensions).map fun journey =>
            Float.ofInt journey.elapsedSeconds)
          secondsToConvert := mean ((completing entries dimensions last).map fun journey =>
            Float.ofInt journey.elapsedSeconds)
          sessionsToReach := (sliceOf entries dimensions).meanSessions
            (distinct ((starting entries dimensions).map Journey.user))
          sessionsToConvert := (sliceOf entries dimensions).meanSessions
            (distinct ((completing entries dimensions last).map Journey.user)) } := by
  rw [Slice.endToEndMetric, sessions_sliceOf_filter]
  rfl

/-- The metrics of some entries average times, if the entries of a session carry one map and every
converted entry has a time. -/
theorem averagesTimes_ofEntries (steps : List Step) (declared : List String)
    (hunified : ∀ a ∈ entries, ∀ b ∈ entries,
      a.sessionKey = b.sessionKey → a.dimensions = b.dimensions)
    (hseconds : ∀ entry ∈ entries, entry.converted = true → entry.secondsToConvert.isSome) :
    AveragesTimes entries (Step.maxRank steps) (ofEntries steps declared entries) := by
  have hstarting : ∀ dimensions, ∀ journey ∈ starting entries dimensions,
      journey ∈ ofSessions entries ∧ journey.dimensions = dimensions := by
    intro dimensions journey h
    obtain ⟨hjourney, hstart⟩ := List.mem_filter.1 h
    exact ⟨hjourney, (of_decide_eq_true hstart).1⟩
  constructor
  · intro row hrow dimensions rank hstage
    obtain ⟨step, -, rfl, rfl⟩ := hstage.exists_step hrow
    -- a start is looked up by user and session, which determine the dimensions
    exact isMean_secondsToReach hunified _ step
  · intro row hrow dimensions rank hstage
    refine ⟨(hstage.counts hrow).2, ?_⟩
    obtain ⟨step, -, rfl, rfl⟩ := hstage.exists_step hrow
    exact isMeanOver_secondsToConvert hseconds _ step
  · intro total hmem dimensions hend
    rw [hend.eq_endToEndMetric hmem, endToEndMetric_sliceOf]
    exact ⟨isMeanOf_iff.2 rfl, isMeanOf_iff.2 rfl⟩
  · intro total hmem dimensions hend
    rw [hend.eq_endToEndMetric hmem, endToEndMetric_sliceOf]
    exact ⟨length_distinct_user _, isMeanOver_meanSessions (hstarting dimensions)⟩
  · intro total hmem dimensions hend
    rw [hend.eq_endToEndMetric hmem, endToEndMetric_sliceOf]
    refine ⟨length_distinct_user _, isMeanOver_meanSessions fun journey h => ?_⟩
    exact hstarting dimensions journey (List.mem_filter.1 h).1

end Metric

end Funnel
