import Funnel.Plan.Basic
import Funnel.Proofs.Config.Ranks
import Funnel.Proofs.Sql.Identifier
import Mathlib.Data.List.Permutation

/-!
# Which configurations are usable

The checks of a configuration stop at the first thing that is wrong. What they amount to is a list
of conditions on its parts, none of which depends on the order in which the checks are made.
-/

namespace Funnel

open Std

namespace Text

/-- The characters of Unicode's `White_Space` property. -/
def whiteSpace : List Char :=
  ['\t', '\n', '\x0b', '\x0c', '\r', ' ', '\u0085', '\u00a0', '\u1680', '\u2000', '\u2001',
    '\u2002', '\u2003', '\u2004', '\u2005', '\u2006', '\u2007', '\u2008', '\u2009', '\u200a',
    '\u2028', '\u2029', '\u202f', '\u205f', '\u3000']

/-- A text of white space only. -/
def IsBlank (s : String) : Prop :=
  ∀ c ∈ s.toList, c ∈ whiteSpace

theorem isBlankChar_iff {c : Char} : isBlankChar c = true ↔ c ∈ whiteSpace := by
  simp only [isBlankChar, whiteSpace, List.mem_cons, List.not_mem_nil, or_false, ← Char.toNat_inj,
    Char.reduceToNat, Bool.or_eq_true, Bool.and_eq_true, decide_eq_true_eq, beq_iff_eq]
  omega

theorem isBlank_iff {s : String} : isBlank s = true ↔ IsBlank s := by
  simp only [isBlank, List.all_eq_true, isBlankChar_iff, IsBlank]

theorem isBlank_eq_false_iff {s : String} : isBlank s = false ↔ ¬ IsBlank s := by
  rw [← isBlank_iff, Bool.not_eq_true]

end Text

/-- What is bound is a name, and a plain one if it must have no schema. -/
def Binding.IsNamed (binding : Binding) : Prop :=
  if binding.mayBeQualified then Sql.IsName binding.value else Sql.IsPlainName binding.value

theorem Binding.IsNamed.isName {binding : Binding} (h : binding.IsNamed) :
    Sql.IsName binding.value := by
  unfold IsNamed at h
  split at h
  · exact h
  · exact .plain h

/-- A name passes its check if it is one. -/
theorem Binding.check_eq_ok_iff {binding : Binding} :
    binding.check = .ok () ↔ binding.IsNamed := by
  have hname : (if binding.mayBeQualified then Sql.isIdentifier binding.value
      else Sql.isUnqualified binding.value) = true ↔ binding.IsNamed := by
    unfold IsNamed
    split
    · exact Sql.isIdentifier_iff
    · exact Sql.isUnqualified_iff
  unfold check
  by_cases hblank : Text.isBlank binding.value = true
  · rw [if_pos hblank]
    constructor
    · intro h
      cases h
    · intro h
      rw [h.isName.isBlank_eq_false] at hblank
      cases hblank
  · rw [if_neg hblank, ← hname]
    split <;> simp [*]

/-- The table of events and its columns have names. -/
structure Source.IsNamed (source : Source) : Prop where
  table : Sql.IsName source.table
  userColumn : Sql.IsName source.userColumn
  sessionColumn : ∀ column ∈ source.sessionColumn, Sql.IsName column
  eventColumn : Sql.IsName source.eventColumn
  timeColumn : Sql.IsName source.timeColumn
  propertiesColumn : ∀ column ∈ source.propertiesColumn, Sql.IsName column

/-- The table of attributes and its columns have names. -/
structure Lookup.IsNamed (lookup : Lookup) : Prop where
  table : Sql.IsName lookup.table
  userColumn : Sql.IsName lookup.userColumn
  sessionColumn : ∀ column ∈ lookup.sessionColumn, Sql.IsName column
  timeColumn : Sql.IsName lookup.timeColumn
  attributesColumn : ∀ column ∈ lookup.attributesColumn, Sql.IsName column

/-- The destination has names. What its relations are called after has no schema of its own. -/
structure Destination.IsNamed (destination : Destination) : Prop where
  schema : Sql.IsName destination.schema
  stem : Sql.IsPlainName destination.stem

theorem Binding.forall_mem_ofOption {field : String} {value : Option String} :
    (∀ binding ∈ ofOption field value, binding.IsNamed) ↔ ∀ name ∈ value, Sql.IsName name := by
  cases value with
  | none => simp [ofOption]
  | some name => simp [ofOption, IsNamed]

theorem Source.forall_isNamed_iff {source : Source} :
    (∀ binding ∈ source.bindings, binding.IsNamed) ↔ source.IsNamed := by
  simp only [bindings, List.forall_mem_append, List.forall_mem_cons, List.not_mem_nil,
    IsEmpty.forall_iff, implies_true, and_true, Binding.forall_mem_ofOption]
  constructor
  · rintro ⟨⟨⟨htable, huser, hevent, htime⟩, hsession⟩, hproperties⟩
    exact ⟨htable, huser, hsession, hevent, htime, hproperties⟩
  · intro h
    exact ⟨⟨⟨h.table, h.userColumn, h.eventColumn, h.timeColumn⟩, h.sessionColumn⟩,
      h.propertiesColumn⟩

theorem Lookup.forall_isNamed_iff {lookup : Lookup} :
    (∀ binding ∈ lookup.bindings, binding.IsNamed) ↔ lookup.IsNamed := by
  simp only [bindings, List.forall_mem_append, List.forall_mem_cons, List.not_mem_nil,
    IsEmpty.forall_iff, implies_true, and_true, Binding.forall_mem_ofOption]
  constructor
  · rintro ⟨⟨⟨htable, huser, htime⟩, hsession⟩, hattributes⟩
    exact ⟨htable, huser, hsession, htime, hattributes⟩
  · intro h
    exact ⟨⟨⟨h.table, h.userColumn, h.timeColumn⟩, h.sessionColumn⟩, h.attributesColumn⟩

theorem Destination.forall_isNamed_iff {destination : Destination} :
    (∀ binding ∈ destination.bindings, binding.IsNamed) ↔ destination.IsNamed := by
  simp only [bindings, List.forall_mem_cons, List.not_mem_nil, IsEmpty.forall_iff, implies_true,
    and_true]
  exact ⟨fun ⟨hschema, hstem⟩ => ⟨hschema, hstem⟩, fun h => ⟨h.schema, h.stem⟩⟩

theorem Step.isComplete_iff {step : Step} :
    step.IsComplete ↔ step.rank ≠ 0 ∧ ¬ Text.IsBlank step.name ∧ step.eventTypes.names ≠ [] ∧
      ∀ eventType ∈ step.eventTypes.names, ¬ Text.IsBlank eventType := by
  have hempty : step.eventTypes.isEmpty = false ↔ step.eventTypes.names ≠ [] := by
    simp [NameMap.isEmpty, NameMap.names]
  have hblank : step.eventTypes.names.any Text.isBlank = false ↔
      ∀ eventType ∈ step.eventTypes.names, ¬ Text.IsBlank eventType := by
    simp only [List.any_eq_false, Text.isBlank_iff]
  rw [← hempty, ← hblank, ← Text.isBlank_eq_false_iff]
  exact ⟨fun h => ⟨h.rank_ne_zero, h.name_not_blank, h.eventTypes_ne_empty,
    h.eventTypes_not_blank⟩, fun ⟨hrank, hname, hne, htypes⟩ => ⟨hrank, hname, hne, htypes⟩⟩

theorem Plan.ofConfig_eq_ok_iff {config : Config} {plan : Plan} :
    Plan.ofConfig config = .ok plan ↔
      ∃ h : config.check = .ok (), plan = { config, accepted := h } := by
  unfold ofConfig
  split
  · rename_i hcheck
    rw [Except.ok.injEq, eq_comm]
    exact ⟨fun h => ⟨hcheck, h⟩, fun ⟨_, h⟩ => h⟩
  · rename_i hcheck
    constructor
    · rintro ⟨⟩
    · rintro ⟨hok, -⟩
      rw [hok] at hcheck
      cases hcheck

namespace Config

variable {config : Config}

theorem checkDimensionNames_cons (before : List String) (name : String) (names : List String) :
    checkDimensionNames before (name :: names) =
      if Sql.isUnqualified name = true then
        if name ∈ before then .error (.duplicateDimension name)
        else checkDimensionNames (name :: before) names
      else .error (.invalidIdentifier "dimensions" name) := rfl

theorem checkDimensionNames_eq_ok_iff {before names : List String} :
    checkDimensionNames before names = .ok () ↔
      (∀ name ∈ names, Sql.IsPlainName name ∧ name ∉ before) ∧ names.Nodup := by
  induction names generalizing before with
  | nil => simp [checkDimensionNames]
  | cons name names ih =>
    rw [checkDimensionNames_cons, List.forall_mem_cons, List.nodup_cons, ← Sql.isUnqualified_iff]
    split_ifs with hname hbefore
    · simp [hbefore]
    · rw [ih]
      constructor
      · rintro ⟨hnames, hnodup⟩
        have hnew : name ∉ names := fun hmem => (hnames name hmem).2 (List.mem_cons_self ..)
        exact ⟨⟨⟨hname, hbefore⟩, fun other hother =>
          ⟨(hnames other hother).1, fun h => (hnames other hother).2 (List.mem_cons_of_mem _ h)⟩⟩,
          hnew, hnodup⟩
      · rintro ⟨⟨-, hnames⟩, hnew, hnodup⟩
        refine ⟨fun other hother => ⟨(hnames other hother).1, fun h => ?_⟩, hnodup⟩
        rcases List.mem_cons.1 h with rfl | h
        · exact hnew hother
        · exact (hnames other hother).2 h
    · simp [hname]

theorem checkDimensions_eq_ok_iff :
    config.checkDimensions = .ok () ↔
      (∀ name ∈ config.dimensions, Sql.IsPlainName name) ∧ config.dimensions.Nodup ∧
        (config.lookup.isSome → config.dimensions ≠ []) := by
  have hchecks : config.checkDimensions =
      checkDimensionNames [] config.dimensions >>= fun _ =>
        if config.lookup.isSome ∧ config.dimensions.isEmpty then .error .lookupWithoutDimensions
        else .ok () := rfl
  rw [hchecks, check_bind_eq_ok_iff, checkDimensionNames_eq_ok_iff]
  simp [and_assoc]

theorem checkPeriod_eq_ok_iff :
    config.checkPeriod = .ok () ↔ ∀ days ∈ config.periodDays, 0 < days.toInt := by
  unfold checkPeriod
  cases config.periodDays with
  | none => simp
  | some days =>
    have hdays : days ≤ 0 ↔ ¬ 0 < days.toInt := by
      rw [Int64.le_iff_toInt_le, Int64.toInt_zero, Int.not_lt]
    by_cases hle : days ≤ 0
    · simpa [hle] using hdays.1 hle
    · simpa [hle] using not_not.1 (mt hdays.2 hle)

theorem checkFilters_eq_ok_iff :
    config.checkFilters = .ok () ↔ ∀ filter ∈ config.filters, ¬ Text.IsBlank filter := by
  unfold checkFilters
  simp [Text.isBlank_iff]

/-- A text is read as the configuration that it is decoded to, with the steps put in order. -/
theorem ofText_eq_ok_iff {text : String} :
    ofText text = .ok config ↔
      ∃ decoded, (Json.Decoder.ofText (fields.decode "FunnelConfig" true) text).toOption =
        some decoded ∧ decoded.ranked = config := by
  unfold ofText
  cases Json.Decoder.ofText (fields.decode "FunnelConfig" true) text with
  | error error => simp [Except.map, Except.toOption]
  | ok decoded => simp [Except.map, Except.toOption]

/-- A configuration that is read lists its steps by rank. -/
theorem pairwise_rank_of_ofText {text : String} (h : ofText text = .ok config) :
    config.steps.Pairwise fun a b => a.rank ≤ b.rank := by
  obtain ⟨decoded, -, rfl⟩ := ofText_eq_ok_iff.1 h
  exact (pairwise_sortOn Step.rank decoded.steps).imp Std.isLE_compare.1

/-- Steps that are listed by rank have no rank missing and none twice if they are numbered from one
upwards. -/
theorem ranks_eq_range_iff (hsorted : config.steps.Pairwise fun a b => a.rank ≤ b.rank) :
    (config.steps.map Step.rank).Nodup ∧ missingRank? (config.steps.map Step.rank) = none ↔
      config.steps.map (fun step => step.rank.toNat) = List.range' 1 config.steps.length := by
  have hmap : config.steps.map (fun step => step.rank.toNat) =
      (config.steps.map Step.rank).map UInt32.toNat := by
    rw [List.map_map]
    rfl
  constructor
  · rintro ⟨-, hmissing⟩
    have hperm := map_toNat_perm_range hmissing
    rw [← hmap, List.length_map] at hperm
    refine hperm.eq_of_pairwise (fun a b _ _ => Nat.le_antisymm) ?_ ?_
    · exact List.pairwise_map.2 (hsorted.imp UInt32.le_iff_toNat_le.1)
    · exact (List.pairwise_lt_range' 1 (by omega)).imp Nat.le_of_lt
  · intro hranks
    rw [hmap] at hranks
    refine ⟨List.Nodup.of_map UInt32.toNat (hranks ▸ List.nodup_range' 1), ?_⟩
    rw [missingRank?_eq_none_iff, hranks, List.length_map]
    intro n hpos hle
    exact List.mem_range'_1.2 ⟨hpos, by omega⟩

/-- A configuration is well formed if each of its parts is. -/
structure IsWellFormed (config : Config) : Prop where
  funnelName : ¬ Text.IsBlank config.funnelName
  source : config.source.IsNamed
  destination : config.destination.IsNamed
  lookup : ∀ lookup ∈ config.lookup, lookup.IsNamed
  /-- There is a step, and the steps are numbered from one upwards, in the order of the list. -/
  steps_ne_nil : config.steps ≠ []
  ranks : config.steps.map (fun step => step.rank.toNat) = List.range' 1 config.steps.length
  stepNames : ∀ step ∈ config.steps, ¬ Text.IsBlank step.name
  /-- A step claims something, and nothing blank. -/
  eventTypes_ne_nil : ∀ step ∈ config.steps, step.eventTypes.names ≠ []
  eventTypes : ∀ step ∈ config.steps, ∀ eventType ∈ step.eventTypes.names,
    ¬ Text.IsBlank eventType
  dimensions : ∀ name ∈ config.dimensions, Sql.IsPlainName name
  dimensions_nodup : config.dimensions.Nodup
  /-- What is looked up are values of dimensions. -/
  dimensions_ne_nil : config.lookup.isSome → config.dimensions ≠ []
  period : ∀ days ∈ config.periodDays, 0 < days.toInt
  filters : ∀ filter ∈ config.filters, ¬ Text.IsBlank filter

theorem forall_bindings_isNamed_iff :
    (∀ binding ∈ config.bindings, binding.IsNamed) ↔
      config.source.IsNamed ∧ config.destination.IsNamed ∧
        ∀ lookup ∈ config.lookup, lookup.IsNamed := by
  have hlookup : (∀ binding ∈ config.lookup.toList.flatMap Lookup.bindings, binding.IsNamed) ↔
      ∀ lookup ∈ config.lookup, lookup.IsNamed := by
    cases config.lookup with
    | none => simp
    | some lookup => simpa using Lookup.forall_isNamed_iff
  rw [bindings, List.forall_mem_append, List.forall_mem_append, hlookup,
    Source.forall_isNamed_iff, Destination.forall_isNamed_iff, and_assoc]

/-- A configuration with its steps in order passes its checks if it is well formed. -/
theorem check_eq_ok_iff_isWellFormed
    (hsorted : config.steps.Pairwise fun a b => a.rank ≤ b.rank) :
    config.check = .ok () ↔ config.IsWellFormed := by
  simp only [check_eq_ok_iff, Text.isBlank_eq_false_iff, Binding.check_eq_ok_iff,
    forall_bindings_isNamed_iff, checkSteps_eq_ok_iff, ranks_eq_range_iff hsorted,
    checkDimensions_eq_ok_iff, checkPeriod_eq_ok_iff, checkFilters_eq_ok_iff,
    Step.isComplete_iff]
  constructor
  · rintro ⟨hname, ⟨hsource, hdestination, hlookup⟩, ⟨hne, hsteps, hranks⟩,
      ⟨hdimensions, hnodup, hdeclared⟩, hperiod, hfilters⟩
    exact ⟨hname, hsource, hdestination, hlookup, hne, hranks,
      fun step hstep => (hsteps step hstep).2.1, fun step hstep => (hsteps step hstep).2.2.1,
      fun step hstep => (hsteps step hstep).2.2.2, hdimensions, hnodup, hdeclared, hperiod,
      hfilters⟩
  · intro h
    -- ranks that count up from one are not zero, which is checked separately
    have hpositive : ∀ step ∈ config.steps, step.rank ≠ 0 := by
      intro step hstep hzero
      have hmem : step.rank.toNat ∈ List.range' 1 config.steps.length :=
        h.ranks ▸ List.mem_map.2 ⟨step, hstep, rfl⟩
      rw [hzero] at hmem
      exact absurd (List.mem_range'_1.1 hmem).1 (by decide)
    exact ⟨h.funnelName, ⟨h.source, h.destination, h.lookup⟩,
      ⟨h.steps_ne_nil, fun step hstep => ⟨hpositive step hstep, h.stepNames step hstep,
        h.eventTypes_ne_nil step hstep, h.eventTypes step hstep⟩, h.ranks⟩,
      ⟨h.dimensions, h.dimensions_nodup, h.dimensions_ne_nil⟩, h.period, h.filters⟩

theorem validate_eq_ok_iff {warnings : List Ambiguity} :
    config.validate = .ok warnings ↔ config.check = .ok () ∧ config.ambiguities = warnings := by
  have hvalidate : config.validate = config.check >>= fun _ => .ok config.ambiguities := rfl
  rw [hvalidate, bind_eq_ok_iff]
  constructor
  · rintro ⟨⟨⟩, hcheck, hwarnings⟩
    exact ⟨hcheck, Except.ok.inj hwarnings⟩
  · rintro ⟨hcheck, rfl⟩
    exact ⟨(), hcheck, rfl⟩

/-- The configuration of a text is accepted if it is well formed, and only then. Its last rank is
then the number of its steps, and its plan has its steps and warnings. -/
theorem validate_accepts_wellFormed {text : String} (h : ofText text = .ok config) :
    ((∃ warnings, config.validate = .ok warnings) ↔ config.IsWellFormed) ∧
      ∀ warnings, config.validate = .ok warnings →
        config.maxRank.toNat = config.steps.length ∧
          ∃ plan, Plan.ofConfig config = .ok plan ∧ plan.steps = config.steps ∧
            plan.config.ambiguities = warnings := by
  constructor
  · rw [← check_eq_ok_iff_isWellFormed (pairwise_rank_of_ofText h)]
    simp only [validate_eq_ok_iff, exists_and_left, exists_eq', and_true]
  · intro warnings hvalidate
    obtain ⟨hcheck, rfl⟩ := validate_eq_ok_iff.1 hvalidate
    refine ⟨?_, { config, accepted := hcheck }, Plan.ofConfig_eq_ok_iff.2 ⟨hcheck, rfl⟩, rfl, rfl⟩
    rw [maxRank_of_check hcheck]
    exact (exists_last_step_of_check hcheck).1

/-- The text of a configuration whose steps have some ranks and all claim one event type. Records
within it are written as arrays. -/
def ranksText (ranks : List Nat) : String :=
  let steps := ranks.map fun rank => "[" ++ toString rank ++ ",\"Page\",[\"page\"]]"
  "\x7b\"funnel_name\":\"visits\",\"source\":[\"events\",\"user\",null,\"name\",\"time\"]," ++
    "\"destination\":[\"reports\",\"visits\"],\"steps\":[" ++ ",".intercalate steps ++ "]\x7d"

/-- The configuration of such a text. -/
def ofRanks (ranks : List Nat) : Config where
  funnelName := "visits"
  source :=
    { table := "events"
      userColumn := "user"
      sessionColumn := none
      eventColumn := "name"
      timeColumn := "time"
      propertiesColumn := none }
  destination := { schema := "reports", stem := "visits" }
  periodDays := none
  filters := []
  steps := ranks.map fun rank =>
    { rank := .ofNat rank, name := "Page", eventTypes := .ofTexts ["page"] }
  dimensions := []
  lookup := none
  mode := .anyLaterEvent
  backfill := false

/-- A text that lists the steps in another order than that of their ranks. -/
theorem validate_accepts_unordered :
    ofText (ranksText [2, 1, 3]) = .ok (ofRanks [1, 2, 3]) ∧
      (ofRanks [1, 2, 3]).IsWellFormed ∧
      ∃ warnings, (ofRanks [1, 2, 3]).validate = .ok warnings ∧
        (ofRanks [1, 2, 3]).maxRank.toNat = 3 ∧
        ∃ plan, Plan.ofConfig (ofRanks [1, 2, 3]) = .ok plan ∧
          plan.steps = (ofRanks [1, 2, 3]).steps ∧ plan.config.ambiguities = warnings := by
  have hload : ofText (ranksText [2, 1, 3]) = .ok (ofRanks [1, 2, 3]) :=
    ofText_eq_ok_iff.2 ⟨ofRanks [2, 1, 3], by decide +kernel, by cbv⟩
  have hcheck : (ofRanks [1, 2, 3]).check = .ok () := check_eq_ok_of_isOk (by decide +kernel)
  have hvalidate := validate_eq_ok_iff.2 ⟨hcheck, rfl⟩
  obtain ⟨hiff, hplan⟩ := validate_accepts_wellFormed hload
  exact ⟨hload, hiff.1 ⟨_, hvalidate⟩, _, hvalidate, hplan _ hvalidate⟩

end Config

end Funnel
