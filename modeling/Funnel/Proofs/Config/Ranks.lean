import Funnel.Config.Validate
import Funnel.Proofs.Except
import Funnel.Proofs.Grouping
import Mathlib.Data.List.Range
import Mathlib.Data.List.Perm.Subperm
import Mathlib.Order.Bounds.Basic

namespace Funnel

/-- What a step has to be, whatever stands in front of it. -/
structure Step.IsComplete (step : Step) : Prop where
  rank_ne_zero : step.rank ≠ 0
  name_not_blank : Text.isBlank step.name = false
  eventTypes_ne_empty : step.eventTypes.isEmpty = false
  eventTypes_not_blank : step.eventTypes.names.any Text.isBlank = false

namespace Step

theorem max_rank_le_iff {a b c : UInt32} : max a b ≤ c ↔ a ≤ c ∧ b ≤ c := by
  have hmax : max a b = if a ≤ b then b else a := rfl
  rw [hmax]
  split <;> simp only [UInt32.le_iff_toNat_le] at * <;> omega

theorem foldl_max_le_iff {steps : List Step} {start last : UInt32} :
    steps.foldl (fun rank step => max rank step.rank) start ≤ last ↔
      start ≤ last ∧ ∀ step ∈ steps, step.rank ≤ last := by
  induction steps generalizing start with
  | nil => simp
  | cons step steps ih => rw [List.foldl_cons, ih, max_rank_le_iff, List.forall_mem_cons, and_assoc]

theorem maxRank_eq {steps : List Step} {last : UInt32} (hlast : ∃ step ∈ steps, step.rank = last)
    (hsteps : ∀ step ∈ steps, step.rank ≤ last) : maxRank steps = last := by
  obtain ⟨step, hstep, rfl⟩ := hlast
  refine Std.le_antisymm (foldl_max_le_iff.2 ⟨?_, hsteps⟩) ?_
  · exact UInt32.le_iff_toNat_le.2 (Nat.zero_le _)
  · exact (foldl_max_le_iff.1 (Std.le_refl (maxRank steps))).2 step hstep

/-- The last rank is the greatest one that a step has. -/
theorem isGreatest_maxRank {steps : List Step} (h : steps ≠ []) :
    IsGreatest { rank | ∃ step ∈ steps, step.rank = rank } (maxRank steps) := by
  obtain ⟨last, hlast⟩ := exists_firstMaxOn? rank h
  have hmem := mem_of_firstMaxOn? hlast
  have hle : ∀ step ∈ steps, step.rank ≤ last.rank :=
    fun step hstep => Std.isLE_compare.1 (isLE_of_firstMaxOn? hlast hstep)
  rw [maxRank_eq ⟨last, hmem, rfl⟩ hle]
  refine ⟨⟨last, hmem, rfl⟩, ?_⟩
  rintro _ ⟨step, hstep, rfl⟩
  exact hle step hstep

end Step

namespace Config

variable {config : Config}

theorem check_eq_ok_iff :
    config.check = .ok () ↔
      Text.isBlank config.funnelName = false ∧
        (∀ binding ∈ config.bindings, binding.check = .ok ()) ∧
        config.checkSteps = .ok () ∧ config.checkDimensions = .ok () ∧
        config.checkPeriod = .ok () ∧ config.checkFilters = .ok () := by
  unfold check
  by_cases hname : Text.isBlank config.funnelName
  · rw [if_pos hname]
    constructor
    · intro h
      cases h
    · intro h
      rw [hname] at h
      cases h.1
  · rw [if_neg hname]
    simp only [check_bind_eq_ok_iff, forM_eq_ok_iff]
    exact ⟨fun h => ⟨Bool.eq_false_iff.2 hname, h⟩, fun h => h.2⟩

theorem check_eq_ok_of_isOk (h : config.check.isOk = true) : config.check = .ok () := by
  cases hcheck : config.check with
  | error error =>
    rw [hcheck] at h
    cases h
  | ok _ => rfl

theorem checkStep_eq_ok_iff {before : List UInt32} {step : Step} :
    config.checkStep before step = .ok () ↔ step.IsComplete ∧ step.rank ∉ before := by
  unfold checkStep
  split
  · simp only [reduceCtorEq, false_iff]
    rintro ⟨h, -⟩
    exact h.rank_ne_zero ‹_›
  · split
    · simp [*]
    · split
      · simp only [reduceCtorEq, false_iff]
        rintro ⟨h, -⟩
        simp [h.name_not_blank] at *
      · split
        · rename_i hblank
          simp only [reduceCtorEq, false_iff]
          rintro ⟨h, -⟩
          simp [h.eventTypes_ne_empty, h.eventTypes_not_blank] at hblank
        · rename_i hrank hbefore hname hblank
          simp only [true_iff]
          simp only [not_or, Bool.not_eq_true] at hname hblank
          exact ⟨⟨hrank, hname, hblank.1, hblank.2⟩, hbefore⟩

theorem checkEachStep_eq_ok_iff {before : List UInt32} {steps : List Step} :
    config.checkEachStep before steps = .ok () ↔
      (∀ step ∈ steps, step.IsComplete ∧ step.rank ∉ before) ∧ (steps.map Step.rank).Nodup := by
  induction steps generalizing before with
  | nil => simp [checkEachStep]
  | cons step steps ih =>
    rw [checkEachStep, check_bind_eq_ok_iff, checkStep_eq_ok_iff, ih, List.forall_mem_cons,
      List.map_cons, List.nodup_cons, List.mem_map]
    constructor
    · rintro ⟨hstep, hsteps, hnodup⟩
      refine ⟨⟨hstep, fun other hother => ?_⟩, ⟨?_, hnodup⟩⟩
      · obtain ⟨hcomplete, hnot⟩ := hsteps other hother
        exact ⟨hcomplete, fun h => hnot (List.mem_cons_of_mem _ h)⟩
      · rintro ⟨other, hother, heq⟩
        exact (hsteps other hother).2 (heq ▸ List.mem_cons_self ..)
    · rintro ⟨⟨hstep, hsteps⟩, ⟨hnew, hnodup⟩⟩
      refine ⟨hstep, fun other hother => ⟨(hsteps other hother).1, fun h => ?_⟩, hnodup⟩
      rcases List.mem_cons.1 h with heq | h
      · exact hnew ⟨other, hother, heq⟩
      · exact (hsteps other hother).2 h

theorem missingRank?_eq_none_iff {ranks : List UInt32} :
    missingRank? ranks = none ↔
      ∀ n, 1 ≤ n → n ≤ ranks.length → n ∈ ranks.map UInt32.toNat := by
  rw [missingRank?, Option.map_eq_none_iff, List.find?_eq_none]
  constructor
  · intro h n hpos hle
    have hn := h n (List.mem_range'_1.2 ⟨hpos, by omega⟩)
    simpa using hn
  · intro h n hn
    obtain ⟨hpos, hlt⟩ := List.mem_range'_1.1 hn
    obtain ⟨rank, hrank, heq⟩ := List.mem_map.1 (h n hpos (by omega))
    simp only [Bool.not_eq_true', Bool.not_eq_false, List.any_eq_true, beq_iff_eq]
    exact ⟨rank, hrank, heq⟩

theorem checkSteps_eq_ok_iff :
    config.checkSteps = .ok () ↔
      config.steps ≠ [] ∧ (∀ step ∈ config.steps, step.IsComplete) ∧
        (config.steps.map Step.rank).Nodup ∧ missingRank? (config.steps.map Step.rank) = none := by
  unfold checkSteps
  by_cases hempty : config.steps.isEmpty
  · rw [if_pos hempty]
    constructor
    · intro h
      cases h
    · rintro ⟨hne, -⟩
      exact absurd (List.isEmpty_iff.1 hempty) hne
  · rw [if_neg hempty]
    have hne : config.steps ≠ [] := fun h => hempty (List.isEmpty_iff.2 h)
    simp only [check_bind_eq_ok_iff, checkEachStep_eq_ok_iff, List.not_mem_nil, not_false_eq_true,
      and_true]
    cases missingRank? (config.steps.map Step.rank) with
    | none =>
      exact ⟨fun h => ⟨hne, h.1.1, h.1.2, rfl⟩, fun h => ⟨⟨h.2.1, h.2.2.1⟩, rfl⟩⟩
    | some missing =>
      constructor
      · rintro ⟨-, h⟩
        cases h
      · rintro ⟨-, -, -, h⟩
        cases h

/-- Ranks of which none is missing are the numbers from one upwards. -/
theorem map_toNat_perm_range {ranks : List UInt32} (h : missingRank? ranks = none) :
    (ranks.map UInt32.toNat).Perm (List.range' 1 ranks.length) := by
  have hsub : List.range' 1 ranks.length ⊆ ranks.map UInt32.toNat := by
    intro n hn
    obtain ⟨hpos, hlt⟩ := List.mem_range'_1.1 hn
    exact missingRank?_eq_none_iff.1 h n hpos (by omega)
  -- as many numbers as ranks, all of them among the ranks
  have hsubperm := List.subperm_of_subset (List.nodup_range' 1) hsub
  exact (hsubperm.perm_of_length_le (by simp)).symm

/-- The ranks of a usable configuration are the numbers from one to the number of steps. -/
theorem ranks_perm_of_check (h : config.check = .ok ()) :
    (config.steps.map fun step => step.rank.toNat).Perm
      (List.range' 1 config.steps.length) := by
  obtain ⟨-, -, -, hmissing⟩ := checkSteps_eq_ok_iff.1 (check_eq_ok_iff.1 h).2.2.1
  have hperm := map_toNat_perm_range hmissing
  rw [List.map_map, List.length_map] at hperm
  exact hperm

theorem steps_ne_nil_of_check (h : config.check = .ok ()) : config.steps ≠ [] :=
  (checkSteps_eq_ok_iff.1 (check_eq_ok_iff.1 h).2.2.1).1

theorem nodup_ranks_of_check (h : config.check = .ok ()) : (config.steps.map Step.rank).Nodup :=
  (checkSteps_eq_ok_iff.1 (check_eq_ok_iff.1 h).2.2.1).2.2.1

/-- The ranks from one to the number of steps have a step, and no other ranks have. -/
theorem exists_step_of_check (h : config.check = .ok ()) {rank : UInt32} :
    (∃ step ∈ config.steps, step.rank = rank) ↔
      1 ≤ rank.toNat ∧ rank.toNat ≤ config.steps.length := by
  have hmem : rank.toNat ∈ (config.steps.map fun step => step.rank.toNat) ↔
      rank.toNat ∈ List.range' 1 config.steps.length := (ranks_perm_of_check h).mem_iff
  rw [List.mem_map, List.mem_range'_1] at hmem
  simp only [UInt32.toNat_inj] at hmem
  rw [hmem]
  omega

/-- The last rank is the number of steps. -/
theorem exists_last_step_of_check (h : config.check = .ok ()) :
    (UInt32.ofNat config.steps.length).toNat = config.steps.length ∧
      ∃ step ∈ config.steps, step.rank = UInt32.ofNat config.steps.length := by
  have hlength := List.length_pos_iff.2 (steps_ne_nil_of_check h)
  have hmem := (ranks_perm_of_check h).mem_iff.2 (List.mem_range'_1.2 ⟨hlength, by omega⟩)
  obtain ⟨step, hstep, heq⟩ := List.mem_map.1 hmem
  have hrank : step.rank = UInt32.ofNat config.steps.length := by
    rw [← heq, UInt32.ofNat_toNat]
  exact ⟨by rw [← hrank, heq], step, hstep, hrank⟩

theorem maxRank_of_check (h : config.check = .ok ()) :
    config.maxRank = UInt32.ofNat config.steps.length := by
  obtain ⟨hlength, hlast⟩ := exists_last_step_of_check h
  refine Step.maxRank_eq hlast fun step hstep => ?_
  rw [UInt32.le_iff_toNat_le, hlength]
  exact ((exists_step_of_check h).1 ⟨step, hstep, rfl⟩).2

/-- Whether skipped steps are filled in and what counts as going on has no part in the checks. -/
theorem check_withOptions (h : config.check = .ok ()) (fill : Bool) (mode : ConversionMode) :
    ({ config with mode := mode, backfill := fill } : Config).check = .ok () := by
  obtain ⟨hname, hbindings, hsteps, hdimensions, hperiod, hfilters⟩ := check_eq_ok_iff.1 h
  rw [checkSteps_eq_ok_iff] at hsteps
  have hsteps' : ({ config with mode := mode, backfill := fill } : Config).checkSteps = .ok () :=
    checkSteps_eq_ok_iff.2 hsteps
  exact check_eq_ok_iff.2 ⟨hname, hbindings, hsteps', hdimensions, hperiod, hfilters⟩

/-- The configuration with skipped steps filled in or not. -/
def withBackfill (config : Config) (fill : Bool) : Config :=
  { config with backfill := fill }

theorem check_withBackfill (h : config.check = .ok ()) (fill : Bool) :
    (config.withBackfill fill).check = .ok () :=
  check_withOptions h fill config.mode

/-- The configuration in another mode of conversion. -/
def withMode (config : Config) (mode : ConversionMode) : Config :=
  { config with mode := mode }

theorem check_withMode (h : config.check = .ok ()) (mode : ConversionMode) :
    (config.withMode mode).check = .ok () :=
  check_withOptions h config.backfill mode

end Config

end Funnel
