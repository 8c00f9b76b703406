import Funnel.Proofs.Config.Ranks
import Funnel.Proofs.Entry.Sequence
import Funnel.Proofs.Journey
import Funnel.Proofs.Metric.Table
import Mathlib.Data.List.Forall2

/-!
# What the rows of metrics count

Steps are counted from entries and the whole funnel from journeys, but both count users, and which
users can be said in terms of entries alone.
-/

namespace Funnel

open Std Time

namespace Entry

/-- The users with an entry of a rank in a combination. -/
def usersReaching (entries : List Entry) (dimensions : Dimensions) (rank : UInt32) : Set String :=
  usersWhere entries fun entry => entry.dimensions = dimensions ∧ entry.stepRank = rank

/-- The users with an entry of a rank in a combination from which their session went on. -/
def usersConverting (entries : List Entry) (dimensions : Dimensions) (rank : UInt32) :
    Set String :=
  usersWhere entries fun entry =>
    entry.dimensions = dimensions ∧ entry.stepRank = rank ∧ entry.converted = true

/-- The users with a session that has entries of the first and of the last rank in a combination,
and none above. -/
def usersCompleting (entries : List Entry) (dimensions : Dimensions) (last : UInt32) :
    Set String :=
  usersWhere entries fun first => first.dimensions = dimensions ∧ first.stepRank = 1 ∧
    (∃ final ∈ entries, final.journeyKey = first.journeyKey ∧ final.stepRank = last) ∧
    ∀ other ∈ entries, other.journeyKey = first.journeyKey → other.stepRank ≤ last

variable (entries : List Entry) (dimensions : Dimensions)

theorem usersReaching_subset (rank : UInt32) :
    usersReaching entries dimensions rank ⊆ usersOf entries dimensions :=
  usersWhere_mono fun _ _ h => h.1

theorem usersConverting_subset (rank : UInt32) :
    usersConverting entries dimensions rank ⊆ usersReaching entries dimensions rank :=
  usersWhere_mono fun _ _ h => ⟨h.1, h.2.1⟩

theorem usersCompleting_subset_first (last : UInt32) :
    usersCompleting entries dimensions last ⊆ usersReaching entries dimensions 1 :=
  usersWhere_mono fun _ _ h => ⟨h.1, h.2.1⟩

theorem usersCompleting_subset_last (last : UInt32) :
    usersCompleting entries dimensions last ⊆ usersReaching entries dimensions last := by
  rintro _ ⟨first, -, ⟨rfl, -, ⟨final, hfinal, hkey, hrank⟩, -⟩, rfl⟩
  obtain ⟨huser, hsession⟩ := Prod.mk.inj hkey
  exact ⟨final, hfinal, ⟨(Prod.mk.inj hsession).2, hrank⟩, huser⟩

end Entry

namespace Metric

/-- The metrics of some entries and of their journeys. -/
def ofEntries (steps : List Step) (declared : List String) (entries : List Entry) : List Metric :=
  aggregate steps declared entries (Journey.ofSessions entries) (Journey.ofUsers entries)

def combinationsOf (declared : List String) (entries : List Entry) : List Dimensions :=
  combinations declared entries (Journey.ofSessions entries) (Journey.ofUsers entries)

variable {steps : List Step} {declared : List String} {entries : List Entry} {metric : Metric}
  {dimensions : Dimensions} {rank : UInt32}

/-- The combinations of entries and their journeys are those of the entries, and the unset one if
there are no entries. -/
theorem mem_combinationsOf :
    dimensions ∈ combinationsOf declared entries ↔
      (∃ entry ∈ entries, entry.dimensions = dimensions) ∨
        entries = [] ∧ dimensions = Dimensions.unset declared := by
  have hoccurs : Occurs entries (Journey.ofSessions entries) (Journey.ofUsers entries) dimensions ↔
      ∃ entry ∈ entries, entry.dimensions = dimensions := by
    constructor
    · rintro (⟨entry, hentry, rfl⟩ | ⟨journey, hjourney, rfl⟩ | ⟨journey, hjourney, rfl⟩)
      · exact ⟨entry, hentry, rfl⟩
      · obtain ⟨entry, hentry, -, -, hd, -⟩ := Journey.sumsUp_of_mem_ofSessions hjourney
        exact ⟨entry, hentry, hd.symm⟩
      · obtain ⟨entry, hentry, heq⟩ := Journey.mem_ofUsers.1 hjourney
        exact ⟨entry, hentry, (Journey.ofEntries?_eq_some heq).2.2.1.symm⟩
    · exact .inl
  have hnil : (entries = [] ∧ Journey.ofSessions entries = [] ∧ Journey.ofUsers entries = []) ↔
      entries = [] := by
    refine and_iff_left_of_imp ?_
    rintro rfl
    simp only [Journey.ofSessions, Journey.ofUsers, groupBy_eq_nil_iff.2, List.filterMap_nil,
      and_self]
  rw [combinationsOf, mem_combinations, hoccurs, hnil]

theorem ascending_combinationsOf (declared : List String) (entries : List Entry) :
    Ascending id (combinationsOf declared entries) :=
  ascending_combinations declared entries _ _

/-- The part of entries and their journeys that belongs to a combination. -/
def sliceOf (entries : List Entry) (dimensions : Dimensions) : Slice :=
  Slice.ofDimensions entries (Journey.ofSessions entries) (Journey.ofUsers entries) dimensions

theorem mem_entries_sliceOf {entry : Entry} :
    entry ∈ (sliceOf entries dimensions).entries ↔
      entry ∈ entries ∧ entry.dimensions = dimensions := by
  simp [sliceOf, Slice.ofDimensions]

theorem mem_ofEntries :
    metric ∈ ofEntries steps declared entries ↔
      ∃ dimensions ∈ combinationsOf declared entries,
        (∃ step ∈ steps, metric = (sliceOf entries dimensions).stepMetric
          (Slice.ordinals (sliceOf entries dimensions).sessions) step) ∨
        metric = (sliceOf entries dimensions).endToEndMetric (Step.maxRank steps) :=
  mem_aggregate

theorem exists_of_mem_ofEntries (h : metric ∈ ofEntries steps declared entries) :
    metric.dimensions ∈ combinationsOf declared entries ∧
      ((∃ step ∈ steps, metric.IsStage metric.dimensions step.rank) ∨
        metric.IsEndToEnd metric.dimensions) := by
  obtain ⟨dimensions, hmem, ⟨step, hstep, rfl⟩ | rfl⟩ := mem_ofEntries.1 h
  · exact ⟨hmem, .inl ⟨step, hstep, rfl, rfl, rfl⟩⟩
  · exact ⟨hmem, .inr ⟨rfl, rfl⟩⟩

theorem IsStage.exists_step (hstage : metric.IsStage dimensions rank)
    (h : metric ∈ ofEntries steps declared entries) :
    ∃ step ∈ steps, step.rank = rank ∧ metric = (sliceOf entries dimensions).stepMetric
      (Slice.ordinals (sliceOf entries dimensions).sessions) step := by
  obtain ⟨d, -, ⟨step, hstep, rfl⟩ | rfl⟩ := mem_ofEntries.1 h
  · obtain rfl : d = dimensions := hstage.dimensions
    exact ⟨step, hstep, Option.some.inj hstage.stepRank, rfl⟩
  · cases hstage.level

theorem IsEndToEnd.eq_endToEndMetric (htotal : metric.IsEndToEnd dimensions)
    (h : metric ∈ ofEntries steps declared entries) :
    metric = (sliceOf entries dimensions).endToEndMetric (Step.maxRank steps) := by
  obtain ⟨d, -, ⟨step, -, rfl⟩ | rfl⟩ := mem_ofEntries.1 h
  · cases htotal.level
  · obtain rfl : d = dimensions := htotal.dimensions
    rfl

theorem counts_stepMetric (entries : List Entry) (dimensions : Dimensions)
    (table : List ((String × String) × Nat)) (step : Step) :
    ((sliceOf entries dimensions).stepMetric table step).starters =
        (Entry.usersReaching entries dimensions step.rank).ncard ∧
      ((sliceOf entries dimensions).stepMetric table step).completers =
        (Entry.usersConverting entries dimensions step.rank).ncard := by
  have hslice : (sliceOf entries dimensions).entries =
      entries.filter fun entry => entry.dimensions == dimensions := rfl
  constructor
  · show (groupBy Entry.user ((sliceOf entries dimensions).entries.filter _)).length = _
    rw [hslice, List.filter_filter, Entry.length_groupBy_user]
    simp only [Entry.usersReaching, Bool.and_eq_true, beq_iff_eq, and_comm]
  · show (groupBy Entry.user
      (((sliceOf entries dimensions).entries.filter _).filter _)).length = _
    rw [hslice, List.filter_filter, List.filter_filter, Entry.length_groupBy_user]
    simp only [Entry.usersConverting, Bool.and_eq_true, beq_iff_eq, and_assoc, and_comm]

/-- The row of a step counts the users that reached it and those that went on from it. -/
theorem IsStage.counts (hstage : metric.IsStage dimensions rank)
    (h : metric ∈ ofEntries steps declared entries) :
    metric.starters = (Entry.usersReaching entries dimensions rank).ncard ∧
      metric.completers = (Entry.usersConverting entries dimensions rank).ncard := by
  obtain ⟨step, -, rfl, rfl⟩ := hstage.exists_step h
  exact counts_stepMetric entries dimensions _ step

theorem starters_endToEndMetric (hpositive : ∀ entry ∈ entries, 1 ≤ entry.stepRank)
    (lastRank : UInt32) :
    ((sliceOf entries dimensions).endToEndMetric lastRank).starters =
      (Entry.usersReaching entries dimensions 1).ncard := by
  refine (length_distinct _).trans (congrArg Set.ncard ?_)
  ext user
  simp only [sliceOf, Slice.ofDimensions, List.mem_map, List.mem_filter, beq_iff_eq,
    Set.mem_ofPred_eq, and_assoc]
  constructor
  · rintro ⟨journey, hjourney, rfl, hone, rfl⟩
    obtain ⟨first, hfirst, hrank, huser, hdimensions, -⟩ :=
      Journey.exists_first_of_mem_ofSessions hpositive hjourney hone
    exact ⟨first, hfirst, ⟨hdimensions, hrank⟩, huser⟩
  · rintro ⟨first, hfirst, ⟨rfl, hrank⟩, rfl⟩
    obtain ⟨journey, hjourney, hone, huser, hdimensions, -⟩ :=
      Journey.exists_mem_ofSessions_of_first hpositive hfirst hrank
    exact ⟨journey, hjourney, hdimensions, hone, huser⟩

theorem completers_endToEndMetric (hpositive : ∀ entry ∈ entries, 1 ≤ entry.stepRank)
    (lastRank : UInt32) :
    ((sliceOf entries dimensions).endToEndMetric lastRank).completers =
      (Entry.usersCompleting entries dimensions lastRank).ncard := by
  refine (length_distinct _).trans (congrArg Set.ncard ?_)
  ext user
  simp only [sliceOf, Slice.ofDimensions, List.mem_map, List.mem_filter, beq_iff_eq,
    Set.mem_ofPred_eq, and_assoc]
  constructor
  · rintro ⟨journey, hjourney, rfl, hone, hlast, rfl⟩
    obtain ⟨first, hfirst, hrank, huser, hdimensions, hsums⟩ :=
      Journey.exists_first_of_mem_ofSessions hpositive hjourney hone
    -- a journey ends at its greatest rank, so no entry of its key stands above
    obtain ⟨⟨final, hmem, hfinal_rank⟩, hle⟩ := hsums.lastStep_eq_iff.1 hlast
    obtain ⟨hfinal, hkey⟩ := Entry.mem_ofJourney.1 hmem
    exact ⟨first, hfirst, ⟨hdimensions, hrank, ⟨final, hfinal, hkey, hfinal_rank⟩,
      fun other hother heq => hle other (Entry.mem_ofJourney.2 ⟨hother, heq⟩)⟩, huser⟩
  · rintro ⟨first, hfirst, ⟨rfl, hrank, ⟨final, hfinal, hkey, hfinal_rank⟩, hle⟩, rfl⟩
    obtain ⟨journey, hjourney, hone, huser, hdimensions, hsums⟩ :=
      Journey.exists_mem_ofSessions_of_first hpositive hfirst hrank
    refine ⟨journey, hjourney, hdimensions, hone, hsums.lastStep_eq_iff.2 ⟨?_, ?_⟩, huser⟩
    · exact ⟨final, Entry.mem_ofJourney.2 ⟨hfinal, hkey⟩, hfinal_rank⟩
    · intro other hmem
      obtain ⟨hother, heq⟩ := Entry.mem_ofJourney.1 hmem
      exact hle other hother heq

/-- The row of the whole funnel counts the users that reached the first step, and those that went
from there to the last one in a single session. -/
theorem IsEndToEnd.counts (htotal : metric.IsEndToEnd dimensions)
    (h : metric ∈ ofEntries steps declared entries)
    (hpositive : ∀ entry ∈ entries, 1 ≤ entry.stepRank) :
    metric.starters = (Entry.usersReaching entries dimensions 1).ncard ∧
      metric.completers =
        (Entry.usersCompleting entries dimensions (Step.maxRank steps)).ncard := by
  rw [htotal.eq_endToEndMetric h]
  exact ⟨starters_endToEndMetric hpositive _, completers_endToEndMetric hpositive _⟩

theorem dropoffs_eq (h : metric ∈ ofEntries steps declared entries) :
    metric.dropoffs = metric.starters - metric.completers := by
  obtain ⟨dimensions, -, ⟨step, -, rfl⟩ | rfl⟩ := mem_ofEntries.1 h <;> rfl

theorem mem_map_dimensions_ofEntries :
    dimensions ∈ (ofEntries steps declared entries).map Metric.dimensions ↔
      (∃ entry ∈ entries, entry.dimensions = dimensions) ∨
        entries = [] ∧ dimensions = Dimensions.unset declared :=
  mem_map_dimensions_aggregate.trans mem_combinationsOf

theorem ofEntries_ne_nil (steps : List Step) (declared : List String) (entries : List Entry) :
    ofEntries steps declared entries ≠ [] :=
  aggregate_ne_nil

/-- Who completes a row has started it, and who starts it has a journey. -/
theorem completers_le_starters (h : metric ∈ ofEntries steps declared entries)
    (hpositive : ∀ entry ∈ entries, 1 ≤ entry.stepRank) :
    metric.completers ≤ metric.starters ∧
      metric.starters ≤ (Entry.usersOf entries metric.dimensions).ncard := by
  have hreaching := fun rank => Entry.usersReaching_subset entries metric.dimensions rank
  have hall := Entry.finite_usersWhere entries fun entry => entry.dimensions = metric.dimensions
  obtain ⟨-, ⟨step, -, hstage⟩ | htotal⟩ := exists_of_mem_ofEntries h
  · obtain ⟨hstarters, hcompleters⟩ := hstage.counts h
    rw [hstarters, hcompleters]
    refine ⟨Set.ncard_le_ncard ?_ (Entry.finite_usersWhere entries _), ?_⟩
    · exact Entry.usersConverting_subset entries metric.dimensions step.rank
    · exact Set.ncard_le_ncard (hreaching _) hall
  · obtain ⟨hstarters, hcompleters⟩ := htotal.counts h hpositive
    rw [hstarters, hcompleters]
    refine ⟨Set.ncard_le_ncard ?_ (Entry.finite_usersWhere entries _), ?_⟩
    · exact Entry.usersCompleting_subset_first entries metric.dimensions _
    · exact Set.ncard_le_ncard (hreaching _) hall

theorem IsEndToEnd.completers_le {total final : Metric} (htotal : total.IsEndToEnd dimensions)
    (hfinal : final.IsStage dimensions (Step.maxRank steps))
    (htotal_mem : total ∈ ofEntries steps declared entries)
    (hfinal_mem : final ∈ ofEntries steps declared entries)
    (hpositive : ∀ entry ∈ entries, 1 ≤ entry.stepRank) : total.completers ≤ final.starters := by
  rw [(htotal.counts htotal_mem hpositive).2, (hfinal.counts hfinal_mem).1]
  refine Set.ncard_le_ncard ?_ (Entry.finite_usersWhere entries _)
  exact Entry.usersCompleting_subset_last entries dimensions _

/-- The rows of steps and the row of the whole funnel agree: for steps of the ranks from one to a
last one, and any entries in any sequence, a combination has one row for the funnel and one for
each step, the funnel is started by those who reach the first step and completed by some of those
who reach the last one, and in every row the users who complete it and those who drop off are the
users who start it. -/
theorem aggregate_agrees (steps : List Step) (declared : List String) (rows : List Entry)
    (mode : ConversionMode) (last : UInt32) (hdistinct : (steps.map Step.rank).Nodup)
    (hranks : ∀ rank, (∃ step ∈ steps, step.rank = rank) ↔ 1 ≤ rank ∧ rank ≤ last)
    (hlast : 1 ≤ last) (hrows : ∀ row ∈ rows, 1 ≤ row.stepRank) :
    let entries := Entry.sequence mode rows
    let users := Journey.ofUsers entries
    let metrics := aggregate steps declared entries (Journey.ofSessions entries) users
    (∀ metric ∈ metrics,
      metric.completers ≤ metric.starters ∧
      metric.starters ≤
        (users.filter fun journey => journey.dimensions = metric.dimensions).length ∧
      metric.dropoffs + metric.completers = metric.starters) ∧
    ∀ dimensions ∈ metrics.map Metric.dimensions,
      (∃! total, total ∈ metrics ∧ total.IsEndToEnd dimensions) ∧
      (∀ rank, 1 ≤ rank → rank ≤ last →
        ∃! row, row ∈ metrics ∧ row.IsStage dimensions rank) ∧
      ∀ total ∈ metrics, ∀ first ∈ metrics, ∀ final ∈ metrics,
        total.IsEndToEnd dimensions → first.IsStage dimensions 1 → final.IsStage dimensions last →
          total.starters = first.starters ∧ total.completers ≤ final.starters ∧
            total.completers ≤ total.starters := by
  intro entries users metrics
  have hpositive : ∀ entry ∈ entries, 1 ≤ entry.stepRank := by
    intro entry hentry
    obtain ⟨origin, horigin, hbare⟩ := Entry.exists_mem_of_mem_sequence hentry
    have hrank : origin.stepRank = entry.stepRank := congrArg (fun e => e.stepRank) hbare
    exact hrank ▸ hrows origin horigin
  have hmax : Step.maxRank steps = last :=
    Step.maxRank_eq ((hranks last).2 ⟨hlast, Std.le_refl last⟩)
      fun step hstep => ((hranks step.rank).1 ⟨step, hstep, rfl⟩).2
  refine ⟨fun metric hmetric => ?_, fun dimensions hdimensions => ⟨?_, ?_, ?_⟩⟩
  · obtain ⟨hle, hall⟩ := completers_le_starters hmetric hpositive
    refine ⟨hle, ?_, ?_⟩
    · rw [Journey.length_ofUsers_of_dimensions]
      exact hall
    · rw [dropoffs_eq hmetric]
      omega
  · obtain ⟨metric, hmetric, rfl⟩ := List.mem_map.1 hdimensions
    exact existsUnique_isEndToEnd (exists_of_mem_ofEntries hmetric).1
  · obtain ⟨metric, hmetric, rfl⟩ := List.mem_map.1 hdimensions
    intro rank hone hle
    exact existsUnique_isStage hdistinct (exists_of_mem_ofEntries hmetric).1
      ((hranks rank).2 ⟨hone, hle⟩)
  · intro total htotal first hfirst final hfinal htotal_row hfirst_row hfinal_row
    -- entries and journeys count one set of users each, and these sets are compared
    refine ⟨?_, ?_, (completers_le_starters htotal hpositive).1⟩
    · rw [(htotal_row.counts htotal hpositive).1, (hfirst_row.counts hfirst).1]
    · rw [← hmax] at hfinal_row
      exact htotal_row.completers_le hfinal_row htotal hfinal hpositive

/-- A row is about the same as another, and if it is about a step, that one counts no fewer
users. -/
structure GrowsTo (row row' : Metric) : Prop where
  label : row'.label = row.label
  starters : row.level = .stage → row.starters ≤ row'.starters
  completers : row.level = .stage → row.completers ≤ row'.completers

/-- The rows of two lists of entries compare one by one if those of each combination do. -/
theorem forall₂_ofEntries {entries' : List Entry} {R : Metric → Metric → Prop}
    (hcombinations : combinationsOf declared entries' = combinationsOf declared entries)
    (hstage : ∀ dimensions, ∀ step ∈ steps,
      R ((sliceOf entries dimensions).stepMetric
          (Slice.ordinals (sliceOf entries dimensions).sessions) step)
        ((sliceOf entries' dimensions).stepMetric
          (Slice.ordinals (sliceOf entries' dimensions).sessions) step))
    (htotal : ∀ dimensions, R ((sliceOf entries dimensions).endToEndMetric (Step.maxRank steps))
      ((sliceOf entries' dimensions).endToEndMetric (Step.maxRank steps))) :
    List.Forall₂ R (ofEntries steps declared entries) (ofEntries steps declared entries') := by
  show List.Forall₂ R
    ((combinationsOf declared entries).flatMap fun d => (sliceOf entries d).metrics steps)
    ((combinationsOf declared entries').flatMap fun d => (sliceOf entries' d).metrics steps)
  rw [hcombinations]
  refine List.rel_flatMap (R := Eq) (List.forall₂_refl _) ?_
  rintro dimensions _ rfl
  refine List.rel_append ?_ (.cons (htotal dimensions) .nil)
  refine List.forall₂_map_left_iff.2 (List.forall₂_map_right_iff.2 (List.forall₂_same.2 ?_))
  exact fun step hstep => hstage dimensions step (mem_sortOn.1 hstep)

/-- Where no user is lost to a step, no count of a step gets smaller. -/
theorem forall₂_growsTo_ofEntries {entries' : List Entry} (steps : List Step)
    (hcombinations : combinationsOf declared entries' = combinationsOf declared entries)
    (hreaching : ∀ dimensions rank, Entry.usersReaching entries dimensions rank ⊆
      Entry.usersReaching entries' dimensions rank)
    (hconverting : ∀ dimensions rank, Entry.usersConverting entries dimensions rank ⊆
      Entry.usersConverting entries' dimensions rank) :
    List.Forall₂ GrowsTo (ofEntries steps declared entries)
      (ofEntries steps declared entries') := by
  refine forall₂_ofEntries hcombinations (fun dimensions step _ => ?_) fun dimensions => ?_
  · have hlabel := label_stepMetric (sliceOf entries dimensions)
    have hlabel' := label_stepMetric (sliceOf entries' dimensions)
    refine ⟨(hlabel' _ step).trans (hlabel _ step).symm, fun _ => ?_, fun _ => ?_⟩
    · rw [(counts_stepMetric entries dimensions _ step).1,
        (counts_stepMetric entries' dimensions _ step).1]
      exact Set.ncard_le_ncard (hreaching dimensions step.rank)
        (Entry.finite_usersWhere entries' _)
    · rw [(counts_stepMetric entries dimensions _ step).2,
        (counts_stepMetric entries' dimensions _ step).2]
      exact Set.ncard_le_ncard (hconverting dimensions step.rank)
        (Entry.finite_usersWhere entries' _)
  · have hlabel := label_endToEndMetric (sliceOf entries dimensions) (Step.maxRank steps)
    have hlabel' := label_endToEndMetric (sliceOf entries' dimensions) (Step.maxRank steps)
    exact ⟨hlabel'.trans hlabel.symm, nofun, nofun⟩

end Metric

/-- A session with two dimension maps, a repeated rank and a rank of no step, and a session of
another user. -/
def Entry.visits : List Entry :=
  let web := NameMap.ofList [("os", some "web")]
  [{ user := "ann", session := "s1", stepName := "Home", stepRank := 1, enteredAt := ⟨10⟩,
      dimensions := web },
    { user := "ann", session := "s1", stepName := "Home", stepRank := 1, enteredAt := ⟨30⟩,
      dimensions := .empty },
    { user := "ann", session := "s1", stepName := "Cart", stepRank := 2, enteredAt := ⟨20⟩,
      dimensions := web },
    { user := "ann", session := "s1", stepName := "Gift", stepRank := 7, enteredAt := ⟨20⟩,
      dimensions := .empty },
    { user := "bob", session := "s1", stepName := "Cart", stepRank := 2, enteredAt := ⟨5⟩,
      dimensions := web }]

theorem Metric.aggregate_agrees_visits :
    (Step.visitSteps.map Step.rank).Nodup ∧
      (∀ rank, (∃ step ∈ Step.visitSteps, step.rank = rank) ↔ 1 ≤ rank ∧ rank ≤ 2) ∧
      (∀ row ∈ Entry.visits, 1 ≤ row.stepRank) ∧
      let entries := Entry.sequence .anyLaterEvent Entry.visits
      ∀ metric ∈ Metric.aggregate Step.visitSteps ["os"] entries (Journey.ofSessions entries)
        (Journey.ofUsers entries), metric.dropoffs + metric.completers = metric.starters := by
  have hdistinct : (Step.visitSteps.map Step.rank).Nodup := by decide
  have hranks : ∀ rank, (∃ step ∈ Step.visitSteps, step.rank = rank) ↔ 1 ≤ rank ∧ rank ≤ 2 := by
    intro rank
    constructor
    · rintro ⟨step, hstep, rfl⟩
      revert step
      decide
    · rintro ⟨hone, htwo⟩
      rw [UInt32.le_iff_toNat_le] at hone htwo
      have hcases : rank = 1 ∨ rank = 2 := by
        simp only [← UInt32.toNat_inj]
        exact (Nat.lt_or_ge rank.toNat 2).imp (fun h => Nat.le_antisymm (Nat.le_of_lt_succ h) hone)
          fun h => Nat.le_antisymm htwo h
      rcases hcases with rfl | rfl <;> decide
  have hrows : ∀ row ∈ Entry.visits, 1 ≤ row.stepRank := by decide
  refine ⟨hdistinct, hranks, hrows, fun metric hmetric => ?_⟩
  have hagrees := Metric.aggregate_agrees Step.visitSteps ["os"] Entry.visits .anyLaterEvent 2
    hdistinct hranks (by decide) hrows
  exact (hagrees.1 metric hmetric).2.2

end Funnel
