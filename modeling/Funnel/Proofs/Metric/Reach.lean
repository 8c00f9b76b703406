import Funnel.Proofs.Metric.Counts

/-!
# What the rows of metrics say about reaching

The signals of entries have a part in the figures about going on from a step and in no others.
-/

namespace Funnel

namespace Slice

/-- The part of a combination, its entries without signals. -/
def bare (slice : Slice) : Slice :=
  { slice with entries := slice.entries.map Entry.bare }

theorem sessionStart?_bare (slice : Slice) (entry : Entry) :
    slice.bare.sessionStart? entry.bare = slice.sessionStart? entry := rfl

theorem leastOrdinal?_map_bare (table : List ((String × String) × Nat)) (entries : List Entry) :
    leastOrdinal? table (entries.map Entry.bare) = leastOrdinal? table entries := by
  unfold leastOrdinal?
  rw [List.map_map]
  rfl

/-- Without signals a step is reached by the same users, after the same time on average and with the
same sessions. -/
theorem reach_stepMetric_bare (slice : Slice) (table : List ((String × String) × Nat))
    (step : Step) :
    let row := slice.stepMetric table step
    let row' := slice.bare.stepMetric table step
    row'.starters = row.starters ∧ row'.secondsToReach = row.secondsToReach ∧
      row'.sessionsToReach = row.sessionsToReach := by
  intro row row'
  -- all three figures are read off the entries of the step, grouped by their users
  let reached := slice.entries.filter fun entry => entry.stepRank == step.rank
  have hreached : (slice.bare.entries.filter fun entry => entry.stepRank == step.rank) =
      reached.map Entry.bare := List.filter_map ..
  have hgroups : groupBy Entry.user (reached.map Entry.bare) =
      (groupBy Entry.user reached).map fun group => (group.1, group.2.map Entry.bare) :=
    groupBy_map ..
  refine ⟨?_, ?_, ?_⟩
  · show (groupBy Entry.user (slice.bare.entries.filter _)).length = _
    rw [hreached, hgroups, List.length_map]
    rfl
  · show mean ((slice.bare.entries.filter _).filterMap _) = _
    rw [hreached, List.filterMap_map]
    refine congrArg mean (List.filterMap_congr fun entry _ => ?_)
    exact congrArg (Option.map fun start => Float.ofInt (entry.enteredAt.secondsSince start))
      (slice.sessionStart?_bare entry)
  · show mean ((groupBy Entry.user (slice.bare.entries.filter _)).filterMap _) = _
    rw [hreached, hgroups, List.filterMap_map]
    refine congrArg mean (List.filterMap_congr fun group _ => ?_)
    exact congrArg (Option.map Float.ofNat) (leastOrdinal?_map_bare table group.2)

theorem endToEndMetric_bare (slice : Slice) (lastRank : UInt32) :
    slice.bare.endToEndMetric lastRank = slice.endToEndMetric lastRank := rfl

end Slice

namespace Metric

/-- Rows are the same as far as they are about reaching a step or about the whole funnel, and the
second counts no fewer users that went on. -/
structure GainsCompleters (row row' : Metric) : Prop where
  label : row'.label = row.label
  endToEnd : row.level = .endToEnd → row' = row
  starters : row'.starters = row.starters
  secondsToReach : row'.secondsToReach = row.secondsToReach
  sessionsToReach : row'.sessionsToReach = row.sessionsToReach
  completers : row.completers ≤ row'.completers

theorem sliceOf_map_bare (entries : List Entry) (dimensions : Dimensions) :
    sliceOf (entries.map Entry.bare) dimensions = (sliceOf entries dimensions).bare := by
  have hentries : (entries.map Entry.bare).filter (fun entry => entry.dimensions == dimensions) =
      (entries.filter fun entry => entry.dimensions == dimensions).map Entry.bare :=
    List.filter_map ..
  unfold sliceOf Slice.ofDimensions
  rw [Journey.ofSessions_map_bare, Journey.ofUsers_map_bare, hentries]
  rfl

theorem combinationsOf_map_bare (declared : List String) (entries : List Entry) :
    combinationsOf declared (entries.map Entry.bare) = combinationsOf declared entries := by
  unfold combinationsOf combinations
  rw [Journey.ofSessions_map_bare, Journey.ofUsers_map_bare, List.map_map]
  rfl

/-- Entries that differ in signals only have rows that differ in figures about going on only. -/
theorem forall₂_gainsCompleters_ofEntries {entries entries' : List Entry} (steps : List Step)
    (declared : List String) (hbare : entries'.map Entry.bare = entries.map Entry.bare)
    (hconverting : ∀ dimensions rank, Entry.usersConverting entries dimensions rank ⊆
      Entry.usersConverting entries' dimensions rank) :
    List.Forall₂ GainsCompleters (ofEntries steps declared entries)
      (ofEntries steps declared entries') := by
  have hslice : ∀ dimensions,
      (sliceOf entries' dimensions).bare = (sliceOf entries dimensions).bare := by
    intro dimensions
    rw [← sliceOf_map_bare, ← sliceOf_map_bare, hbare]
  have hsessions : ∀ dimensions,
      (sliceOf entries' dimensions).sessions = (sliceOf entries dimensions).sessions :=
    fun dimensions => congrArg (fun slice => slice.sessions) (hslice dimensions)
  have hcombinations : combinationsOf declared entries' = combinationsOf declared entries := by
    rw [← combinationsOf_map_bare, hbare, combinationsOf_map_bare]
  refine forall₂_ofEntries hcombinations (fun dimensions step _ => ?_) fun dimensions => ?_
  · rw [hsessions]
    -- sessions are numbered in the same way on both sides
    generalize Slice.ordinals (sliceOf entries dimensions).sessions = table
    obtain ⟨hstarters, hseconds, hordinals⟩ :=
      (sliceOf entries dimensions).reach_stepMetric_bare table step
    obtain ⟨hstarters', hseconds', hordinals'⟩ :=
      (sliceOf entries' dimensions).reach_stepMetric_bare table step
    rw [hslice] at hstarters' hseconds' hordinals'
    have hlabel := label_stepMetric (sliceOf entries dimensions) table step
    have hlabel' := label_stepMetric (sliceOf entries' dimensions) table step
    refine ⟨hlabel'.trans hlabel.symm, nofun, hstarters'.symm.trans hstarters,
      hseconds'.symm.trans hseconds, hordinals'.symm.trans hordinals, ?_⟩
    rw [(counts_stepMetric entries dimensions table step).2,
      (counts_stepMetric entries' dimensions table step).2]
    exact Set.ncard_le_ncard (hconverting dimensions step.rank) (Entry.finite_usersWhere entries' _)
  · have hrow : (sliceOf entries' dimensions).endToEndMetric (Step.maxRank steps) =
        (sliceOf entries dimensions).endToEndMetric (Step.maxRank steps) := by
      rw [← Slice.endToEndMetric_bare, hslice, Slice.endToEndMetric_bare]
    rw [hrow]
    exact ⟨rfl, fun _ => rfl, rfl, rfl, rfl, le_rfl⟩

end Metric

end Funnel
