import Funnel.Config.Json
import Funnel.Proofs.Grouping
import Funnel.Proofs.Json.Record
import Funnel.Proofs.NameMap

/-!
# Reading what was written

A configuration may be written with its members in any order, under several names, with any white
space and any escapes. Each of these texts is read as the configuration with its steps in order of
rank.
-/

namespace Funnel

open Json (Decoder FieldForm IsObjectOf Record Token)

def Source.forms (source : Source) : List FieldForm := [
  .required ["table"] (· = .string source.table),
  .required ["user_id_column"] (· = .string source.userColumn),
  .optional "session_id_column" (· = Json.textOrNull source.sessionColumn)
    (source.sessionColumn = none),
  .required ["event_column"] (· = .string source.eventColumn),
  .required ["timestamp_column"] (· = .string source.timeColumn),
  .optional "properties_column" (· = Json.textOrNull source.propertiesColumn)
    (source.propertiesColumn = none)]

def Source.IsWritten (source : Source) : Json → Prop :=
  IsObjectOf source.forms

def Lookup.forms (lookup : Lookup) : List FieldForm := [
  .required ["table"] (· = .string lookup.table),
  .required ["user_id_column"] (· = .string lookup.userColumn),
  .optional "session_id_column" (· = Json.textOrNull lookup.sessionColumn)
    (lookup.sessionColumn = none),
  .required ["observed_at_column"] (· = .string lookup.timeColumn),
  .optional "attributes_column" (· = Json.textOrNull lookup.attributesColumn)
    (lookup.attributesColumn = none),
  .optional "selection" (· = .string lookup.selection.name) (lookup.selection = .latest)]

def Lookup.IsWritten (lookup : Lookup) : Json → Prop :=
  IsObjectOf lookup.forms

def Destination.forms (destination : Destination) : List FieldForm := [
  .required ["schema"] (· = .string destination.schema),
  .required ["prefix"] (· = .string destination.stem)]

def Destination.IsWritten (destination : Destination) : Json → Prop :=
  IsObjectOf destination.forms

/-- A set is written as its members in any order, with any repetitions. -/
def TextSet.IsWritten (set : TextSet) (value : Json) : Prop :=
  ∃ texts, (∀ s, s ∈ texts ↔ s ∈ set.names) ∧ value = Json.ofTexts texts

def Step.forms (step : Step) : List FieldForm := [
  .required ["rank"] (· = .integer step.rank.toNat),
  .required ["name", "screen_name"] (· = .string step.name),
  .required ["matching_event_types", "loaded_events"] step.eventTypes.IsWritten]

def Step.IsWritten (step : Step) : Json → Prop :=
  IsObjectOf step.forms

/-- Something that may be there or not, and is null if it is not. -/
def IsWrittenOrNull {α : Type} (IsWritten : α → Json → Prop) : Option α → Json → Prop
  | none, value => value = .null
  | some a, value => IsWritten a value

namespace Config

def forms (config : Config) : List FieldForm := [
  .required ["funnel_name"] (· = .string config.funnelName),
  .required ["source"] config.source.IsWritten,
  .required ["destination"] config.destination.IsWritten,
  .optional "time_period_days"
    (IsWrittenOrNull (fun days value => value = .integer days.toInt) config.periodDays)
    (config.periodDays = none),
  .optional "filters" (· = Json.ofTexts config.filters) (config.filters = []),
  .required ["steps"] fun value =>
    ∃ items, List.Forall₂ Step.IsWritten config.steps items ∧ value = .array items,
  .optional "dimensions" (· = Json.ofTexts config.dimensions) (config.dimensions = []),
  .optional "dimension_lookup" (IsWrittenOrNull Lookup.IsWritten config.lookup)
    (config.lookup = none),
  .optional "conversion_mode" (· = .string config.mode.name) (config.mode = .anyLaterEvent),
  .optional "backfill_skipped_steps" (· = .bool config.backfill) (config.backfill = false)]

/-- A configuration is written as an object, in which members stand in any order, fields with
several names go by any of them, and fields with their default values may be missing. -/
def IsWritten (config : Config) : Json → Prop :=
  IsObjectOf config.forms

/-- A text of a configuration. -/
def IsWrittenAs (config : Config) (text : String) : Prop :=
  ∃ value, config.IsWritten value ∧ value.IsTextOf text

/-- The same configuration with its steps in order of rank, those of one rank in their old order. -/
structure IsRankedFrom (loaded config : Config) : Prop where
  eq_steps : loaded = { config with steps := loaded.steps }
  pairwise_rank : loaded.steps.Pairwise fun a b => a.rank ≤ b.rank
  filter_rank : ∀ rank,
    loaded.steps.filter (fun step => step.rank = rank) =
      config.steps.filter fun step => step.rank = rank

end Config

theorem reads_text (s : String) : ∀ value, value = .string s → Decoder.text.Reads value s := by
  rintro _ rfl
  exact Decoder.reads_text s

theorem reads_bool (b : Bool) : ∀ value, value = .bool b → Decoder.bool.Reads value b := by
  rintro _ rfl
  exact Decoder.reads_bool b

theorem reads_uint32 (n : UInt32) :
    ∀ value, value = .integer n.toNat → Decoder.uint32.Reads value n := by
  rintro _ rfl
  exact Decoder.reads_uint32 n

theorem reads_textOrNull (text : Option String) :
    ∀ value, value = Json.textOrNull text → (Decoder.nullable Decoder.text).Reads value text := by
  rintro _ rfl
  cases text with
  | none => exact Decoder.reads_null
  | some s => exact (Decoder.reads_text s).nullable nofun

theorem reads_ofTexts (texts : List String) :
    ∀ value, value = Json.ofTexts texts → (Decoder.list Decoder.text).Reads value texts := by
  rintro _ rfl
  exact Decoder.reads_list (List.forall₂_map_left_iff.2
    (List.forall₂_same.2 fun s _ => Decoder.reads_text s))

theorem Selection.reads (selection : Selection) : ∀ value, value = .string selection.name →
    (Decoder.choice Selection.choices).Reads value selection := by
  rintro _ rfl
  exact Decoder.reads_choice (by cases selection <;> decide)

theorem ConversionMode.reads (mode : ConversionMode) : ∀ value, value = .string mode.name →
    (Decoder.choice ConversionMode.choices).Reads value mode := by
  rintro _ rfl
  exact Decoder.reads_choice (by cases mode <;> decide)

theorem TextSet.mem_names_ofTexts {texts : List String} {s : String} :
    s ∈ (TextSet.ofTexts texts).names ↔ s ∈ texts := by
  rw [TextSet.ofTexts, NameMap.mem_names_ofList]
  simp

/-- A set is determined by its members. -/
theorem TextSet.ofTexts_eq {set : TextSet} {texts : List String}
    (h : ∀ s, s ∈ texts ↔ s ∈ set.names) : TextSet.ofTexts texts = set := by
  have hnames : ∀ s, s ∈ (TextSet.ofTexts texts).names ↔ s ∈ set.names := fun s =>
    mem_names_ofTexts.trans (h s)
  have hmem : ∀ (m : TextSet) (entry : String × Unit), entry ∈ m.entries ↔ entry.1 ∈ m.names := by
    intro m entry
    simp only [NameMap.names, List.mem_map, Prod.exists, exists_and_right, exists_eq_right]
    constructor
    · exact fun hentry => ⟨(), hentry⟩
    · rintro ⟨_, hentry⟩
      exact hentry
  have hascending : ∀ m : TextSet, Ascending Prod.fst m.entries := NameMap.ascending
  refine NameMap.entries_injective ((hascending _).eq_of_mem_iff (hascending set) fun entry => ?_)
  rw [hmem, hmem, hnames]

theorem TextSet.reads (set : TextSet) :
    ∀ value, set.IsWritten value → TextSet.decoder.Reads value set := by
  rintro value ⟨texts, htexts, hvalue⟩ tokens cs hcs hend
  rw [TextSet.decoder, reads_ofTexts texts value hvalue hcs hend, ← TextSet.ofTexts_eq htexts]
  rfl

theorem reads_orNull {α : Type} {IsWritten : α → Json → Prop} {decoder : Decoder α}
    (hreads : ∀ a value, IsWritten a value → decoder.Reads value a)
    (hne : ∀ a value, IsWritten a value → value ≠ .null) (a : Option α) :
    ∀ value, IsWrittenOrNull IsWritten a value → (Decoder.nullable decoder).Reads value a := by
  intro value h
  cases a with
  | none =>
    cases h
    exact Decoder.reads_null
  | some a => exact (hreads a value h).nullable (hne a value h)

theorem reads_days (days : Option Int64) :
    ∀ value, IsWrittenOrNull (fun days value => value = .integer days.toInt) days value →
      (Decoder.nullable Decoder.int64).Reads value days := by
  refine reads_orNull ?_ ?_ days
  · rintro days _ rfl
    exact Decoder.reads_int64 days
  · rintro days _ rfl
    nofun

theorem Source.takes (source : Source) : Source.fields.Takes source.forms source :=
  Record.Takes.make
    |>.required (reads_text _)
    |>.required (reads_text _)
    |>.optional (reads_textOrNull _)
    |>.required (reads_text _)
    |>.required (reads_text _)
    |>.optional (reads_textOrNull _)

theorem Source.reads (source : Source) : ∀ value, source.IsWritten value →
    (Source.fields.decode "SourceBindings" true).Reads value source :=
  fun _ h => source.takes.reads_decode (by decide) h _ _

theorem Lookup.takes (lookup : Lookup) : Lookup.fields.Takes lookup.forms lookup :=
  Record.Takes.make
    |>.required (reads_text _)
    |>.required (reads_text _)
    |>.optional (reads_textOrNull _)
    |>.required (reads_text _)
    |>.optional (reads_textOrNull _)
    |>.optional (Selection.reads _)

theorem Lookup.reads (lookup : Lookup) : ∀ value, lookup.IsWritten value →
    (Lookup.fields.decode "DimensionLookup" true).Reads value lookup :=
  fun _ h => lookup.takes.reads_decode (by decide) h _ _

theorem Destination.takes (destination : Destination) :
    Destination.fields.Takes destination.forms destination :=
  Record.Takes.make
    |>.required (reads_text _)
    |>.required (reads_text _)

theorem Destination.reads (destination : Destination) : ∀ value, destination.IsWritten value →
    (Destination.fields.decode "Destination" false).Reads value destination :=
  fun _ h => destination.takes.reads_decode (by decide) h _ _

theorem Step.takes (step : Step) : Step.fields.Takes step.forms step :=
  Record.Takes.make
    |>.required (reads_uint32 _)
    |>.required (reads_text _)
    |>.required (TextSet.reads _)

theorem Step.reads (step : Step) : ∀ value, step.IsWritten value →
    (Step.fields.decode "StepDefinition" false).Reads value step :=
  fun _ h => step.takes.reads_decode (by decide) h _ _

theorem reads_steps (steps : List Step) :
    ∀ value, (∃ items, List.Forall₂ Step.IsWritten steps items ∧ value = .array items) →
      (Decoder.list (Step.fields.decode "StepDefinition" false)).Reads value steps := by
  rintro _ ⟨items, hitems, rfl⟩
  exact Decoder.reads_list (hitems.flip.imp fun item step h => step.reads item h)

theorem reads_lookup (lookup : Option Lookup) :
    ∀ value, IsWrittenOrNull Lookup.IsWritten lookup value →
      (Decoder.nullable (Lookup.fields.decode "DimensionLookup" true)).Reads value lookup :=
  reads_orNull Lookup.reads (fun _ _ h => h.ne_null) lookup

namespace Config

variable {config : Config}

theorem takes (config : Config) : fields.Takes config.forms config :=
  Record.Takes.make
    |>.required (reads_text _)
    |>.required (Source.reads _)
    |>.required (Destination.reads _)
    |>.optional (reads_days _)
    |>.optional (reads_ofTexts _)
    |>.required (reads_steps _)
    |>.optional (reads_ofTexts _)
    |>.optional (reads_lookup _)
    |>.optional (ConversionMode.reads _)
    |>.optional (reads_bool _)

/-- Every text of a configuration is read as it, with the steps in order of rank. -/
theorem ofText_eq_ok {text : String} (h : config.IsWrittenAs text) :
    ofText text = .ok config.ranked := by
  obtain ⟨value, hvalue, htext⟩ := h
  have hreads := config.takes.reads_decode (by decide) hvalue "FunnelConfig" true
  rw [ofText, hreads.ofText_eq_ok htext]
  rfl

theorem ranked_isRankedFrom (config : Config) : config.ranked.IsRankedFrom config where
  eq_steps := rfl
  pairwise_rank := (pairwise_sortOn Step.rank config.steps).imp Std.isLE_compare.1
  filter_rank := filter_sortOn Step.rank config.steps

theorem ranked_ranked (config : Config) : config.ranked.ranked = config.ranked := by
  have hsteps : sortOn Step.rank config.ranked.steps = config.ranked.steps :=
    sortOn_eq_self (pairwise_sortOn Step.rank config.steps)
  rw [ranked, hsteps]

end Config

section Writing

variable {x : Float}

theorem float_not_mem_ofTexts (texts : List String) : .float x ∉ (Json.ofTexts texts).tokens :=
  Json.float_not_mem_array (by simp [Json.float_not_mem_string])

theorem float_not_mem_textOrNull (text : Option String) :
    .float x ∉ (Json.textOrNull text).tokens := by
  cases text with
  | none => exact Json.float_not_mem_null
  | some s => exact Json.float_not_mem_string

theorem float_not_mem_orNull {α : Type} {write : α → Json}
    (h : ∀ a, .float x ∉ (write a).tokens) (a : Option α) :
    .float x ∉ ((a.map write).getD .null).tokens := by
  cases a with
  | none => exact Json.float_not_mem_null
  | some a => exact h a

theorem Source.float_not_mem_toJson (source : Source) : .float x ∉ source.toJson.tokens :=
  Json.float_not_mem_object (by simp [Json.float_not_mem_string, float_not_mem_textOrNull])

theorem Lookup.float_not_mem_toJson (lookup : Lookup) : .float x ∉ lookup.toJson.tokens :=
  Json.float_not_mem_object (by simp [Json.float_not_mem_string, float_not_mem_textOrNull])

theorem Destination.float_not_mem_toJson (destination : Destination) :
    .float x ∉ destination.toJson.tokens :=
  Json.float_not_mem_object (by simp [Json.float_not_mem_string])

theorem Step.float_not_mem_toJson (step : Step) : .float x ∉ step.toJson.tokens :=
  Json.float_not_mem_object (by
    simp [Json.float_not_mem_integer, Json.float_not_mem_string, float_not_mem_ofTexts])

theorem Config.float_not_mem_toJson (config : Config) : .float x ∉ config.toJson.tokens := by
  have hdays : .float x ∉
      ((config.periodDays.map fun days => Json.integer days.toInt).getD .null).tokens :=
    float_not_mem_orNull (fun _ => Json.float_not_mem_integer) _
  have hsteps : .float x ∉ (Json.array (config.steps.map Step.toJson)).tokens :=
    Json.float_not_mem_array (by simp [Step.float_not_mem_toJson])
  have hlookup : .float x ∉ ((config.lookup.map Lookup.toJson).getD .null).tokens :=
    float_not_mem_orNull Lookup.float_not_mem_toJson _
  exact Json.float_not_mem_object (by
    simp [Json.float_not_mem_string, Json.float_not_mem_bool, Source.float_not_mem_toJson,
      Destination.float_not_mem_toJson, float_not_mem_ofTexts, hdays, hsteps, hlookup])

theorem Source.isWritten_toJson (source : Source) : source.IsWritten source.toJson :=
  Json.isObjectOf_object (by simp [Source.forms, FieldForm.required, FieldForm.optional])

theorem Lookup.isWritten_toJson (lookup : Lookup) : lookup.IsWritten lookup.toJson :=
  Json.isObjectOf_object (by simp [Lookup.forms, FieldForm.required, FieldForm.optional])

theorem Destination.isWritten_toJson (destination : Destination) :
    destination.IsWritten destination.toJson :=
  Json.isObjectOf_object (by simp [Destination.forms, FieldForm.required])

theorem TextSet.isWritten_ofTexts (set : TextSet) : set.IsWritten (Json.ofTexts set.names) :=
  ⟨set.names, fun _ => .rfl, rfl⟩

theorem Step.isWritten_toJson (step : Step) : step.IsWritten step.toJson :=
  Json.isObjectOf_object (by
    simp [Step.forms, FieldForm.required, TextSet.isWritten_ofTexts])

theorem isWrittenOrNull_getD {α : Type} {IsWritten : α → Json → Prop} {write : α → Json}
    (h : ∀ a, IsWritten a (write a)) (a : Option α) :
    IsWrittenOrNull IsWritten a ((a.map write).getD .null) := by
  cases a with
  | none => rfl
  | some a => exact h a

namespace Config

theorem isWritten_toJson (config : Config) : config.IsWritten config.toJson := by
  have hdays : IsWrittenOrNull (fun days value => value = Json.integer days.toInt) config.periodDays
      ((config.periodDays.map fun days => Json.integer days.toInt).getD .null) :=
    by cases config.periodDays <;> rfl
  have hsteps : List.Forall₂ Step.IsWritten config.steps (config.steps.map Step.toJson) :=
    List.forall₂_map_right_iff.2 (List.forall₂_same.2 fun step _ => step.isWritten_toJson)
  have hlookup := isWrittenOrNull_getD Lookup.isWritten_toJson config.lookup
  exact Json.isObjectOf_object (by
    simp [forms, FieldForm.required, FieldForm.optional, Source.isWritten_toJson,
      Destination.isWritten_toJson, hdays, hsteps, hlookup])

/-- Written with all of its fields, a configuration has a text of its own. -/
theorem isWrittenAs_unspaced (config : Config) : config.IsWrittenAs config.toJson.unspaced :=
  ⟨config.toJson, config.isWritten_toJson,
    Json.isTextOf_unspaced fun _ => config.float_not_mem_toJson⟩

/-- However a configuration is written, it is read as itself with its steps in order of rank. What
is read may be written and read again without any change. -/
theorem ofText_undoes_writing {text : String} (h : config.IsWrittenAs text) :
    ∃ loaded, ofText text = .ok loaded ∧ loaded.IsRankedFrom config ∧
      (∀ again, loaded.IsWrittenAs again → ofText again = .ok loaded) ∧
      ofText loaded.toJson.unspaced = .ok loaded := by
  have hagain : ∀ again, config.ranked.IsWrittenAs again → ofText again = .ok config.ranked :=
    fun again hwritten => by rw [ofText_eq_ok hwritten, ranked_ranked]
  exact ⟨config.ranked, ofText_eq_ok h, ranked_isRankedFrom config, hagain,
    hagain _ (isWrittenAs_unspaced _)⟩

/-- A configuration that lists its steps backwards, with names that have to be escaped. -/
def quoted : Config where
  funnelName := "say \"hi\"\n"
  source := ⟨"shop.events", "user_id", none, "event_name", "occurred_at", none⟩
  destination := ⟨"reports", "quoted"⟩
  periodDays := some (-7)
  filters := []
  steps := [⟨2, "Caf\u00e9", .ofTexts ["cart", "buy"]⟩, ⟨1, "\\ \u0001", .ofTexts ["home"]⟩]
  dimensions := []
  lookup := none
  mode := .higherRank
  backfill := false

/-- It is written backwards, with other names of fields, with an event type twice, and without what
may be left out. -/
def quotedJson : Json :=
  .object [
    ("conversion_mode", .string "higher_rank"),
    ("steps", .array [
      .object [
        ("loaded_events", Json.ofTexts ["cart", "buy", "cart"]),
        ("screen_name", .string "Caf\u00e9"),
        ("rank", .integer 2)],
      .object [
        ("matching_event_types", Json.ofTexts ["home"]),
        ("name", .string "\\ \u0001"),
        ("rank", .integer 1)]]),
    ("time_period_days", .integer (-7)),
    ("destination", .object [("prefix", .string "quoted"), ("schema", .string "reports")]),
    ("source", .object [
      ("timestamp_column", .string "occurred_at"),
      ("event_column", .string "event_name"),
      ("user_id_column", .string "user_id"),
      ("table", .string "shop.events")]),
    ("funnel_name", .string "say \"hi\"\n")]

theorem isWritten_quotedJson : quoted.IsWritten quotedJson := by
  have hfirst : ∀ {name : String} {names : List String}, name ∈ name :: names :=
    List.mem_cons_self ..
  have hsecond : ∀ {first name : String} {names : List String}, name ∈ first :: name :: names :=
    List.mem_cons_of_mem _ hfirst
  have hsource : quoted.source.IsWritten _ :=
    ⟨_, _, .present hfirst rfl <| .present hfirst rfl <| .absent rfl <| .present hfirst rfl <|
      .present hfirst rfl <| .absent rfl .nil, List.reverse_perm _, rfl⟩
  have hdestination : quoted.destination.IsWritten _ :=
    ⟨_, _, .present hfirst rfl <| .present hfirst rfl .nil, List.reverse_perm _, rfl⟩
  have hcart : TextSet.IsWritten (.ofTexts ["cart", "buy"]) _ :=
    ⟨["cart", "buy", "cart"], fun s => by
      simp only [TextSet.mem_names_ofTexts, List.mem_cons, List.not_mem_nil, or_false]
      tauto, rfl⟩
  have hhome : TextSet.IsWritten (.ofTexts ["home"]) _ :=
    ⟨["home"], fun s => TextSet.mem_names_ofTexts.symm, rfl⟩
  have hsteps : List.Forall₂ Step.IsWritten quoted.steps [_, _] :=
    .cons ⟨_, _, .present hfirst rfl <| .present hsecond rfl <| .present hsecond hcart .nil,
        List.reverse_perm _, rfl⟩ <|
      .cons ⟨_, _, .present hfirst rfl <| .present hfirst rfl <| .present hfirst hhome .nil,
        List.reverse_perm _, rfl⟩ .nil
  exact ⟨_, _, .present hfirst rfl <| .present hfirst hsource <| .present hfirst hdestination <|
    .present hfirst rfl <| .absent rfl <| .present hfirst ⟨_, hsteps, rfl⟩ <| .absent rfl <|
    .absent rfl <| .present hfirst rfl <| .absent rfl .nil, List.reverse_perm _, rfl⟩

theorem ofText_undoes_writing_quoted :
    quoted.IsWrittenAs quotedJson.unspaced ∧
      ∃ loaded, ofText quotedJson.unspaced = .ok loaded ∧ loaded.IsRankedFrom quoted ∧
        (∀ again, loaded.IsWrittenAs again → ofText again = .ok loaded) ∧
        ofText loaded.toJson.unspaced = .ok loaded := by
  have hwritten : quoted.IsWrittenAs quotedJson.unspaced :=
    ⟨quotedJson, isWritten_quotedJson, Json.isTextOf_unspaced (by
      simp [quotedJson, Json.ofTexts, Json.tokens, Json.itemTokens, Json.memberTokens,
        List.intercalate_cons_cons])⟩
  exact ⟨hwritten, ofText_undoes_writing hwritten⟩

end Config

end Writing

end Funnel
