import Funnel.Proofs.Config.WellFormed

/-!
# What rank errors say

A configuration is reported to have a rank twice or to miss one. If all ranks are above zero, the
missing rank is the least that no step has; a step of rank zero is reported as the missing rank one,
whether or not another step has that.
-/

namespace Funnel

/-- An error about the ranks of steps. -/
def ConfigError.IsOfRanks : ConfigError → Prop
  | duplicateRank _ | rankGap .. => True
  | _ => False

variable {error : ConfigError}

theorem Binding.not_isOfRanks_of_check {binding : Binding} (h : binding.check = .error error) :
    ¬ error.IsOfRanks := by
  unfold check at h
  by_cases hblank : Text.isBlank binding.value
  · rw [if_pos hblank] at h
    cases h
    exact id
  · rw [if_neg hblank] at h
    by_cases hname : (if binding.mayBeQualified then Sql.isIdentifier binding.value
      else Sql.isUnqualified binding.value) = true
    · rw [if_pos hname] at h
      cases h
    · rw [if_neg hname] at h
      cases h
      exact id

namespace Config

theorem checkSteps_eq (config : Config) :
    config.checkSteps =
      if config.steps.isEmpty then .error .noSteps
      else config.checkEachStep [] config.steps >>= fun _ =>
        match missingRank? (config.steps.map Step.rank) with
        | some missing => .error (.rankGap missing config.maxRank)
        | none => .ok () := rfl

variable {config : Config} {missing last rank : UInt32}

theorem not_isOfRanks_of_checkDimensionNames {before names : List String}
    (h : checkDimensionNames before names = .error error) : ¬ error.IsOfRanks := by
  induction names generalizing before with
  | nil => cases h
  | cons name names ih =>
    rw [checkDimensionNames_cons] at h
    split_ifs at h with hname hbefore
    · cases h
      exact id
    · exact ih h
    · cases h
      exact id

theorem not_isOfRanks_of_checkDimensions (h : config.checkDimensions = .error error) :
    ¬ error.IsOfRanks := by
  rcases bind_eq_error_iff.1 h with hnames | ⟨-, -, hlookup⟩
  · exact not_isOfRanks_of_checkDimensionNames hnames
  · split at hlookup
    · cases hlookup
      exact id
    · cases hlookup

theorem not_isOfRanks_of_checkPeriod (h : config.checkPeriod = .error error) :
    ¬ error.IsOfRanks := by
  unfold checkPeriod at h
  split at h
  · split at h
    · cases h
      exact id
    · cases h
  · cases h

theorem not_isOfRanks_of_checkFilters (h : config.checkFilters = .error error) :
    ¬ error.IsOfRanks := by
  unfold checkFilters at h
  split at h
  · cases h
    exact id
  · cases h

/-- Errors about ranks come from the check of the steps. -/
theorem checkSteps_eq_error_of_check (h : config.check = .error error)
    (hranks : error.IsOfRanks) : config.checkSteps = .error error := by
  unfold check at h
  split at h
  · cases h
    cases hranks
  · rcases bind_eq_error_iff.1 h with hbindings | ⟨-, -, h⟩
    · obtain ⟨binding, -, hbinding⟩ := exists_mem_of_forM_eq_error hbindings
      exact absurd hranks (Binding.not_isOfRanks_of_check hbinding)
    rcases bind_eq_error_iff.1 h with hsteps | ⟨-, -, h⟩
    · exact hsteps
    rcases bind_eq_error_iff.1 h with hdimensions | ⟨-, -, h⟩
    · exact absurd hranks (not_isOfRanks_of_checkDimensions hdimensions)
    rcases bind_eq_error_iff.1 h with hperiod | ⟨-, -, hfilters⟩
    · exact absurd hranks (not_isOfRanks_of_checkPeriod hperiod)
    · exact absurd hranks (not_isOfRanks_of_checkFilters hfilters)

theorem checkStep_eq_rankGap {before : List UInt32} {step : Step}
    (h : config.checkStep before step = .error (.rankGap missing last)) :
    step.rank = 0 ∧ missing = 1 ∧ last = config.maxRank := by
  unfold checkStep at h
  split at h
  · rename_i hzero
    cases h
    exact ⟨hzero, rfl, rfl⟩
  · split_ifs at h <;> cases h

theorem checkStep_eq_duplicateRank {before : List UInt32} {step : Step}
    (h : config.checkStep before step = .error (.duplicateRank rank)) :
    step.rank = rank ∧ rank ∈ before := by
  unfold checkStep at h
  split at h
  · cases h
  · split at h
    · rename_i hbefore
      cases h
      exact ⟨rfl, hbefore⟩
    · split_ifs at h <;> cases h

/-- The check of one step after the other fails at a step, which knows the ranks of those in front
of it. -/
theorem exists_of_checkEachStep_eq_error {before : List UInt32} {steps : List Step}
    (h : config.checkEachStep before steps = .error error) :
    ∃ front step back, steps = front ++ step :: back ∧
      config.checkStep ((front.map Step.rank).reverse ++ before) step = .error error := by
  induction steps generalizing before with
  | nil => cases h
  | cons first steps ih =>
    rcases bind_eq_error_iff.1 h with hfirst | ⟨-, -, hrest⟩
    · exact ⟨[], first, steps, rfl, hfirst⟩
    · obtain ⟨front, step, back, rfl, hstep⟩ := ih hrest
      refine ⟨first :: front, step, back, rfl, ?_⟩
      rw [List.map_cons, List.reverse_cons, List.append_assoc, List.singleton_append]
      exact hstep

/-- Different ranks above zero reach as far as there are ranks. -/
theorem exists_le_rank {ranks : List UInt32} (hnodup : ranks.Nodup) (hpositive : 0 ∉ ranks)
    {n : Nat} (hpos : 1 ≤ n) (hle : n ≤ ranks.length) : ∃ rank ∈ ranks, n ≤ rank.toNat := by
  by_contra hbelow
  have hsub : ranks.map UInt32.toNat ⊆ List.range' 1 (n - 1) := by
    intro m hm
    obtain ⟨rank, hrank, rfl⟩ := List.mem_map.1 hm
    have hlt : ¬ n ≤ rank.toNat := fun hge => hbelow ⟨rank, hrank, hge⟩
    have hne : rank.toNat ≠ 0 := fun hzero =>
      hpositive ((UInt32.toNat_inj (b := 0)).1 hzero ▸ hrank)
    exact List.mem_range'_1.2 ⟨by omega, by omega⟩
  have hnumbers : (ranks.map UInt32.toNat).Nodup :=
    hnodup.map fun _ _ => UInt32.toNat_inj.1
  have hlength := (List.subperm_of_subset hnumbers hsub).length_le
  rw [List.length_map, List.length_range'] at hlength
  omega

/-- The missing rank of different ranks above zero is the least rank that is not there, and it is
below one that is. -/
theorem missingRank?_eq_some {ranks : List UInt32} (hnodup : ranks.Nodup) (hpositive : 0 ∉ ranks)
    (h : missingRank? ranks = some missing) :
    IsLeast { rank | 1 ≤ rank ∧ rank ∉ ranks } missing ∧ ∃ rank ∈ ranks, missing ≤ rank := by
  obtain ⟨n, hfind, rfl⟩ := Option.map_eq_some_iff.1 h
  obtain ⟨hfree, hn, hbefore⟩ := List.find?_range'_eq_some.1 hfind
  obtain ⟨hpos, hlt⟩ := List.mem_range'_1.1 hn
  -- different ranks above zero cannot all be below the missing one
  obtain ⟨above, habove, hle⟩ := exists_le_rank hnodup hpositive hpos (by omega)
  have hnat : (UInt32.ofNat n).toNat = n :=
    UInt32.toNat_ofNat_of_lt' (hle.trans_lt above.toNat_lt)
  refine ⟨⟨⟨?_, ?_⟩, ?_⟩, above, habove, ?_⟩
  · rw [UInt32.le_iff_toNat_le, hnat]
    exact hpos
  · intro hmem
    simp only [Bool.not_eq_true', List.any_eq_false, beq_iff_eq] at hfree
    exact hfree _ hmem hnat
  · rintro rank ⟨hone, hrank⟩
    rw [UInt32.le_iff_toNat_le, hnat]
    by_contra hlower
    have hpresent := hbefore rank.toNat (UInt32.le_iff_toNat_le.1 hone) (by omega)
    simp only [Bool.not_not, List.any_eq_true, beq_iff_eq, UInt32.toNat_inj] at hpresent
    obtain ⟨other, hother, rfl⟩ := hpresent
    exact hrank hother
  · rw [UInt32.le_iff_toNat_le, hnat]
    exact hle

/-- The ranks of a configuration are as it is said where one is reported missing up to the last. -/
structure ReportsGap (config : Config) (missing last : UInt32) : Prop where
  isGreatest : IsGreatest { rank | ∃ step ∈ config.steps, step.rank = rank } last
  /-- Among ranks above zero the missing one is the least that no step has. -/
  missing_of_positive : (∀ step ∈ config.steps, step.rank ≠ 0) →
    missing ≤ last ∧ IsLeast { rank | 1 ≤ rank ∧ ∀ step ∈ config.steps, step.rank ≠ rank } missing
  /-- In place of a rank zero one is said to be missing. -/
  missing_of_zero : (∃ step ∈ config.steps, step.rank = 0) → missing = 1

theorem checkSteps_eq_error (h : config.checkSteps = .error error) (hranks : error.IsOfRanks) :
    config.steps ≠ [] ∧ (config.checkEachStep [] config.steps = .error error ∨
      config.checkEachStep [] config.steps = .ok () ∧
        ∃ missing, missingRank? (config.steps.map Step.rank) = some missing ∧
          error = .rankGap missing config.maxRank) := by
  rw [checkSteps_eq] at h
  split_ifs at h with hempty
  · cases h
    cases hranks
  · refine ⟨fun hnil => hempty (List.isEmpty_iff.2 hnil), ?_⟩
    rcases bind_eq_error_iff.1 h with heach | ⟨⟨⟩, heach, hgap⟩
    · exact .inl heach
    · cases hmissing : missingRank? (config.steps.map Step.rank) with
      | none =>
        rw [hmissing] at hgap
        cases hgap
      | some missing =>
        rw [hmissing] at hgap
        cases hgap
        exact .inr ⟨heach, missing, rfl, rfl⟩

theorem reportsGap_of_checkSteps (h : config.checkSteps = .error (.rankGap missing last)) :
    config.ReportsGap missing last := by
  obtain ⟨hne, hwhere⟩ := checkSteps_eq_error h trivial
  have hlast : IsGreatest { rank | ∃ step ∈ config.steps, step.rank = rank } config.maxRank :=
    Step.isGreatest_maxRank hne
  rcases hwhere with heach | ⟨heach, missing, hmissing, heq⟩
  · obtain ⟨front, step, back, hsteps, hstep⟩ := exists_of_checkEachStep_eq_error heach
    obtain ⟨hzero, rfl, rfl⟩ := checkStep_eq_rankGap hstep
    have hmem : step ∈ config.steps := by simp [hsteps]
    exact ⟨hlast, fun hpositive => absurd hzero (hpositive step hmem), fun _ => rfl⟩
  · cases heq
    obtain ⟨hcomplete, hnodup⟩ := checkEachStep_eq_ok_iff.1 heach
    have hpositive : 0 ∉ config.steps.map Step.rank := fun hmem => by
      obtain ⟨step, hstep, hzero⟩ := List.mem_map.1 hmem
      exact (hcomplete step hstep).1.rank_ne_zero hzero
    obtain ⟨hleast, rank, hrank, hle⟩ := missingRank?_eq_some hnodup hpositive hmissing
    refine ⟨hlast, fun _ => ⟨?_, ?_⟩, ?_⟩
    · exact Std.le_trans hle (hlast.2 (List.mem_map.1 hrank))
    · simpa only [List.mem_map, not_exists, not_and] using hleast
    · rintro ⟨step, hstep, hzero⟩
      exact absurd hzero (hcomplete step hstep).1.rank_ne_zero

theorem two_le_countP_of_checkSteps (h : config.checkSteps = .error (.duplicateRank rank)) :
    2 ≤ config.steps.countP fun step => step.rank = rank := by
  obtain ⟨-, hwhere⟩ := checkSteps_eq_error h trivial
  rcases hwhere with heach | ⟨-, missing, -, heq⟩
  · obtain ⟨front, step, back, hsteps, hstep⟩ := exists_of_checkEachStep_eq_error heach
    obtain ⟨rfl, hbefore⟩ := checkStep_eq_duplicateRank hstep
    rw [List.append_nil, List.mem_reverse, List.mem_map] at hbefore
    obtain ⟨other, hother, heq⟩ := hbefore
    have hfront : 0 < front.countP fun other => other.rank = step.rank :=
      List.countP_pos_iff.2 ⟨other, hother, decide_eq_true heq⟩
    have hstep : 0 < (step :: back).countP fun other => other.rank = step.rank :=
      List.countP_pos_iff.2 ⟨step, List.mem_cons_self .., decide_eq_true rfl⟩
    rw [hsteps, List.countP_append]
    omega
  · cases heq

theorem check_eq_error_of_validate (h : config.validate = .error error) :
    config.check = .error error := by
  rcases bind_eq_error_iff.1 h with hcheck | ⟨-, -, hpure⟩
  · exact hcheck
  · cases hpure

/-- Where a configuration is refused for its ranks, these are as the error says. -/
theorem validate_reports_ranks (config : Config) :
    (∀ missing last, config.validate = .error (.rankGap missing last) →
      config.ReportsGap missing last) ∧
    ∀ rank, config.validate = .error (.duplicateRank rank) →
      2 ≤ config.steps.countP fun step => step.rank = rank := by
  constructor
  · intro missing last h
    exact reportsGap_of_checkSteps
      (checkSteps_eq_error_of_check (check_eq_error_of_validate h) trivial)
  · intro rank h
    exact two_le_countP_of_checkSteps
      (checkSteps_eq_error_of_check (check_eq_error_of_validate h) trivial)

theorem validate_ofRanks_reports_ranks :
    (ofRanks [1, 2, 4, 6]).validate = .error (.rankGap 3 6) ∧
      (ofRanks [1, 2, 4, 6]).ReportsGap 3 6 ∧
      (ofRanks [1, 2, 2]).validate = .error (.duplicateRank 2) ∧
      2 ≤ (ofRanks [1, 2, 2]).steps.countP fun step => step.rank = 2 :=
  ⟨rfl, (validate_reports_ranks _).1 3 6 rfl, rfl, (validate_reports_ranks _).2 2 rfl⟩

/-- The rank that is said to be missing is there, and another one is missing. -/
theorem validate_misses_present_rank :
    ofText (ranksText [0, 1, 3]) = .ok (ofRanks [0, 1, 3]) ∧
      (ofRanks [0, 1, 3]).validate = .error (.rankGap 1 3) ∧
      (ConfigError.rankGap 1 3).message =
        "Step ranks must be contiguous from 1 to 3; missing rank 1" ∧
      (∃ step ∈ (ofRanks [0, 1, 3]).steps, step.rank = 1) ∧
      ∀ step ∈ (ofRanks [0, 1, 3]).steps, step.rank ≠ 2 := by
  have hload : ofText (ranksText [0, 1, 3]) = .ok (ofRanks [0, 1, 3]) :=
    ofText_eq_ok_iff.2 ⟨ofRanks [0, 1, 3], by decide +kernel, by cbv⟩
  exact ⟨hload, rfl, by decide, by decide, by decide⟩

end Config

end Funnel
