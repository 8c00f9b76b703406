import Funnel.Proofs.Config.WellFormed
import Funnel.Proofs.Event.Resolution

/-!
# What warnings say of event types

Warnings and the classifier both come down to the list of the steps that claim an event type, in the
order of their ranks: its first step is the one that events of the type belong to, and a warning
lists its ranks.
-/

namespace Funnel

open Std

/-- A step wins the event type of a warning: events of the type belong to it, and the other steps
that claim the type are shadowed. -/
structure Ambiguity.IsWonBy (warning : Ambiguity) (steps : List Step) (winner : Step) : Prop where
  mem : winner ∈ steps
  claims : warning.eventType ∈ winner.eventTypes.names
  rank_eq : winner.rank = warning.winner
  classifiesAs : Step.ClassifiesAs steps warning.eventType (some warning.winner) winner.name
  /-- The ranks of the other steps ascend, so none of them is there twice. -/
  pairwise_shadowed : warning.shadowed.Pairwise (· < ·)
  mem_shadowed_iff : ∀ rank, rank ∈ warning.shadowed ↔
    ∃ other ∈ steps, other ≠ winner ∧ warning.eventType ∈ other.eventTypes.names ∧
      other.rank = rank

/-- What warnings about some steps have to say for events to be classified as they say. -/
structure Ambiguity.Agree (warnings : List Ambiguity) (steps : List Step) : Prop where
  /-- There is one warning for an event type at most, and they come in the order of these. -/
  ordered : Ascending Ambiguity.eventType warnings
  warned_iff : ∀ eventType, (∃ warning ∈ warnings, warning.eventType = eventType) ↔
    2 ≤ steps.countP fun step => eventType ∈ step.eventTypes.names
  won : ∀ warning ∈ warnings, ∃ winner, warning.IsWonBy steps winner
  /-- Without a warning an event type belongs to the step that claims it, -/
  single : ∀ eventType, ∀ step ∈ steps, eventType ∈ step.eventTypes.names →
    (steps.countP fun step => eventType ∈ step.eventTypes.names) = 1 →
      Step.ClassifiesAs steps eventType (some step.rank) step.name
  /-- or to none. -/
  unclaimed : ∀ eventType, (∀ step ∈ steps, eventType ∉ step.eventTypes.names) →
    Step.ClassifiesAs steps eventType none eventType

namespace Step

variable {steps : List Step} {eventType : String}

/-- A step claims an event type once or not at all. -/
theorem map_snd_filter_names (step : Step) (eventType : String) :
    ((step.eventTypes.names.map fun claimed => (claimed, step.rank)).filter
        fun claim => claim.1 = eventType).map Prod.snd =
      if step.claims eventType then [step.rank] else [] := by
  have hfilter : (step.eventTypes.names.filter fun claimed => claimed = eventType) =
      List.replicate (step.eventTypes.names.count eventType) eventType :=
    List.filter_eq eventType
  have hcount := step.eventTypes.nodup_names.count (a := eventType)
  simp only [List.filter_map, Function.comp_def, hfilter, List.map_replicate, hcount, ← claims_iff]
  split <;> rfl

/-- The claims on an event type are those of the steps that claim it. -/
theorem map_snd_filter_claims (steps : List Step) (eventType : String) :
    ((steps.flatMap fun step =>
        step.eventTypes.names.map fun claimed => (claimed, step.rank)).filter
        fun claim => claim.1 = eventType).map Prod.snd =
      (steps.filter fun step => step.claims eventType).map rank := by
  induction steps with
  | nil => rfl
  | cons step steps ih =>
    rw [List.flatMap_cons, List.filter_append, List.map_append, ih, map_snd_filter_names,
      List.filter_cons]
    split <;> rfl

end Step

namespace Config

variable {config : Config} {warning : Ambiguity} {steps : List Step}

/-- The event types that steps claim, each with the ranks of these steps in order. -/
theorem claims_eq (config : Config) :
    config.claims =
      (distinct (config.steps.flatMap fun step => step.eventTypes.names)).map fun eventType =>
        (eventType, (Step.claimants config.steps eventType).map Step.rank) := by
  have hkeys : (config.steps.flatMap fun step =>
      step.eventTypes.names.map fun claimed => (claimed, step.rank)).map Prod.fst =
      config.steps.flatMap fun step => step.eventTypes.names := by
    simp [List.map_flatMap, Function.comp_def]
  rw [claims, groupBy_eq, hkeys, List.map_map]
  refine List.map_congr_left fun eventType _ => Prod.ext rfl ?_
  show sortOn id (List.map Prod.snd _) = _
  rw [Step.map_snd_filter_claims]
  exact sortOn_map (fun _ _ => rfl) _

theorem mem_claims_iff {claim : String × List UInt32} :
    claim ∈ config.claims ↔
      claim.2 ≠ [] ∧ (Step.claimants config.steps claim.1).map Step.rank = claim.2 := by
  rw [claims_eq, List.mem_map]
  constructor
  · rintro ⟨eventType, hclaimed, rfl⟩
    obtain ⟨step, hstep, hclaims⟩ := List.mem_flatMap.1 (mem_distinct.1 hclaimed)
    exact ⟨List.ne_nil_of_mem
      (List.mem_map_of_mem (Step.mem_claimants.2 ⟨hstep, hclaims⟩)), rfl⟩
  · rintro ⟨hne, hclaimants⟩
    rw [← hclaimants, ne_eq, List.map_eq_nil_iff] at hne
    obtain ⟨step, hstep⟩ := List.exists_mem_of_ne_nil _ hne
    obtain ⟨hstep, hclaims⟩ := Step.mem_claimants.1 hstep
    exact ⟨claim.1, mem_distinct.2 (List.mem_flatMap.2 ⟨step, hstep, hclaims⟩),
      Prod.ext rfl hclaimants⟩

/-- The claim that a warning is about is one of several ranks. -/
theorem mem_ambiguities_iff_mem_claims :
    warning ∈ config.ambiguities ↔
      (warning.eventType, warning.winner :: warning.shadowed) ∈ config.claims ∧
        warning.shadowed ≠ [] := by
  rw [ambiguities, List.mem_filterMap]
  constructor
  · rintro ⟨claim, hclaim, hwarning⟩
    split at hwarning
    · cases hwarning
      exact ⟨hclaim, List.cons_ne_nil _ _⟩
    · cases hwarning
  · rintro ⟨hclaim, hshadowed⟩
    obtain ⟨loser, others, heq⟩ := List.exists_cons_of_ne_nil hshadowed
    refine ⟨_, hclaim, ?_⟩
    obtain ⟨eventType, winner, shadowed⟩ := warning
    subst heq
    rfl

/-- An event type is warned about if several steps claim it, and the warning has their ranks in
order. -/
theorem mem_ambiguities_iff :
    warning ∈ config.ambiguities ↔
      (Step.claimants config.steps warning.eventType).map Step.rank =
          warning.winner :: warning.shadowed ∧ warning.shadowed ≠ [] := by
  rw [mem_ambiguities_iff_mem_claims, mem_claims_iff]
  simp

/-- Warnings come in the order of event types. -/
theorem ascending_ambiguities (config : Config) :
    Ascending Ambiguity.eventType config.ambiguities := by
  have hclaims : Ascending Prod.fst config.claims := by
    rw [claims_eq]
    exact Ascending.map.2 (ascending_distinct _)
  refine List.pairwise_filterMap.2 (hclaims.imp fun {claim claim'} hlt warning hwarning
    warning' hwarning' => ?_)
  split at hwarning <;> cases hwarning
  split at hwarning' <;> cases hwarning'
  exact hlt

theorem exists_warning_iff (eventType : String) :
    (∃ warning ∈ config.ambiguities, warning.eventType = eventType) ↔
      2 ≤ (Step.claimants config.steps eventType).length := by
  constructor
  · rintro ⟨warning, hwarning, rfl⟩
    obtain ⟨hclaimants, hshadowed⟩ := mem_ambiguities_iff.1 hwarning
    have hlength := congrArg List.length hclaimants
    have hpositive := List.length_pos_iff.2 hshadowed
    rw [List.length_map, List.length_cons] at hlength
    omega
  · intro hlength
    match hclaimants : Step.claimants config.steps eventType with
    | [] => simp [hclaimants] at hlength
    | [_] => simp [hclaimants] at hlength
    | winner :: loser :: others =>
      have hranks := congrArg (List.map Step.rank) hclaimants
      exact ⟨⟨eventType, winner.rank, (loser :: others).map Step.rank⟩,
        mem_ambiguities_iff.2 ⟨hranks, List.cons_ne_nil _ _⟩, rfl⟩

theorem classifiesAs_of_head? (hranks : (steps.map Step.rank).Nodup) {eventType : String}
    {step : Step} (h : (Step.claimants steps eventType).head? = some step) :
    Step.ClassifiesAs steps eventType (some step.rank) step.name :=
  Step.classifiesAs_of_resolve? ((Step.resolve?_eq_head? hranks).trans h)

/-- A warning has the rank of the first step that claims the event type, which wins it, and the
ranks of those behind it. -/
theorem exists_isWonBy (hranks : (config.steps.map Step.rank).Nodup)
    (h : warning ∈ config.ambiguities) : ∃ winner, warning.IsWonBy config.steps winner := by
  obtain ⟨hclaims, -⟩ := mem_ambiguities_iff.1 h
  obtain ⟨winner, losers, hclaimants, hrank, hlosers⟩ := List.map_eq_cons_iff.1 hclaims
  have hmem : ∀ {step}, step ∈ winner :: losers ↔
      step ∈ config.steps ∧ warning.eventType ∈ step.eventTypes.names := fun {step} => by
    rw [← hclaimants, Step.mem_claimants]
  have hascending : Ascending Step.rank (winner :: losers) :=
    hclaimants ▸ Step.ascending_claimants hranks warning.eventType
  obtain ⟨hwinner, hclaimed⟩ := hmem.1 (List.mem_cons_self ..)
  refine ⟨winner, hwinner, hclaimed, hrank, ?_, ?_, fun rank => ?_⟩
  · rw [← hrank]
    exact classifiesAs_of_head? hranks (congrArg List.head? hclaimants)
  · rw [← hlosers]
    exact List.pairwise_map.2 ((List.pairwise_cons.1 hascending).2.imp compare_eq_lt.1)
  · -- the winner is not among the losers, as no rank is there twice
    have hnot := (List.nodup_cons.1 hascending.nodup).1
    rw [← hlosers, List.mem_map]
    constructor
    · rintro ⟨other, hother, rfl⟩
      obtain ⟨hstep, hclaims⟩ := hmem.1 (List.mem_cons_of_mem _ hother)
      exact ⟨other, hstep, fun heq => hnot (heq ▸ hother), hclaims, rfl⟩
    · rintro ⟨other, hstep, hne, hclaims, rfl⟩
      exact ⟨other, (List.mem_cons.1 (hmem.2 ⟨hstep, hclaims⟩)).resolve_left hne, rfl⟩

theorem agree_ambiguities (hranks : (config.steps.map Step.rank).Nodup) :
    Ambiguity.Agree config.ambiguities config.steps where
  ordered := ascending_ambiguities config
  warned_iff eventType := by rw [exists_warning_iff, Step.length_claimants]
  won _ h := exists_isWonBy hranks h
  single eventType step hstep htype hcount := by
    rw [← Step.length_claimants] at hcount
    obtain ⟨only, honly⟩ := List.length_eq_one_iff.1 hcount
    have hmem : step ∈ [only] := honly ▸ Step.mem_claimants.2 ⟨hstep, htype⟩
    obtain rfl := List.mem_singleton.1 hmem
    exact classifiesAs_of_head? hranks (congrArg List.head? honly)
  unclaimed _ h := Step.classifiesAs_of_resolve? (Step.resolve?_eq_none_iff.2 h)

/-- The configuration with other steps. -/
def withSteps (config : Config) (steps : List Step) : Config :=
  { config with steps }

/-- The order in which the steps are listed is no matter of the checks. -/
theorem check_withSteps (h : config.check = .ok ()) (hperm : steps.Perm config.steps) :
    (config.withSteps steps).check = .ok () := by
  obtain ⟨hname, hbindings, hsteps, hdimensions, hperiod, hfilters⟩ := check_eq_ok_iff.1 h
  obtain ⟨hne, hcomplete, hnodup, hmissing⟩ := checkSteps_eq_ok_iff.1 hsteps
  have hranks := hperm.map Step.rank
  have hsteps' : (config.withSteps steps).checkSteps = .ok () := by
    refine checkSteps_eq_ok_iff.2 ⟨?_, fun step hstep => hcomplete step (hperm.mem_iff.1 hstep),
      hranks.nodup_iff.2 hnodup, ?_⟩
    · exact fun hnil : steps = [] => hne (hnil ▸ hperm).nil_eq.symm
    · refine missingRank?_eq_none_iff.2 fun n hpos hle => ?_
      have hmem := missingRank?_eq_none_iff.1 hmissing n hpos (hranks.length_eq ▸ hle)
      exact (hranks.map UInt32.toNat).mem_iff.2 hmem
  exact check_eq_ok_iff.2 ⟨hname, hbindings, hsteps', hdimensions, hperiod, hfilters⟩

/-- Neither is it a matter of the warnings. -/
theorem ambiguities_withSteps (h : config.check = .ok ()) (hperm : steps.Perm config.steps) :
    (config.withSteps steps).ambiguities = config.ambiguities := by
  refine (ascending_ambiguities _).eq_of_mem_iff (ascending_ambiguities config) fun warning => ?_
  rw [mem_ambiguities_iff, mem_ambiguities_iff, withSteps,
    Step.claimants_eq_of_perm (nodup_ranks_of_check h) hperm]

/-- The steps of an accepted configuration, in whatever order they are listed, are accepted with the
same warnings, and these agree with how events are classified. -/
theorem validate_agrees_classify {warnings : List Ambiguity}
    (h : config.validate = .ok warnings) (hperm : steps.Perm config.steps) :
    (config.withSteps steps).validate = .ok warnings ∧ Ambiguity.Agree warnings steps := by
  obtain ⟨hcheck, rfl⟩ := validate_eq_ok_iff.1 h
  have hambiguities := ambiguities_withSteps hcheck hperm
  have hsteps := check_withSteps hcheck hperm
  refine ⟨validate_eq_ok_iff.2 ⟨hsteps, hambiguities⟩, ?_⟩
  rw [← hambiguities]
  exact agree_ambiguities (nodup_ranks_of_check hsteps)

/-- A shop that lists its steps backwards, with an event type that both of them claim. -/
def shop : Config :=
  (ofRanks []).withSteps
    [{ rank := 2, name := "Cart", eventTypes := .ofTexts ["cart", "buy"] },
      { rank := 1, name := "Home", eventTypes := .ofTexts ["home", "buy"] }]

theorem validate_shop_agrees_classify :
    shop.validate = .ok [⟨"buy", 1, [2]⟩] ∧ shop.steps.reverse.Perm shop.steps ∧
      (shop.withSteps shop.steps.reverse).validate = .ok [⟨"buy", 1, [2]⟩] ∧
      Ambiguity.Agree [⟨"buy", 1, [2]⟩] shop.steps.reverse := by
  have hvalidate : shop.validate = .ok [⟨"buy", 1, [2]⟩] :=
    validate_eq_ok_iff.2 ⟨check_eq_ok_of_isOk (by decide +kernel), by cbv⟩
  have hperm := List.reverse_perm shop.steps
  obtain ⟨hreverse, hagree⟩ := validate_agrees_classify hvalidate hperm
  exact ⟨hvalidate, hperm, hreverse, hagree⟩

end Config

end Funnel
