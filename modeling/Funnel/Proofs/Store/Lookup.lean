import Funnel.Proofs.Command.Run
import Funnel.Proofs.Config.WellFormed

/-!
# Columns of a lookup

A lookup reads every part of a record by the name of its column, and of several columns of one name
the last. A dimension named like the column of user, session or time is accepted, and hides what is
bound.
-/

namespace Funnel

/-- A value of some type. -/
def Sql.typed (value type : String) : String :=
  value ++ "::" ++ type

/-- The value of a dimension: a member of the attributes, or a column of its own. -/
def Lookup.dimensionValue (lookup : Lookup) (dimension : String) : String :=
  match lookup.attributesColumn with
  | some attributes => attributes ++ "::jsonb ->> '" ++ dimension ++ "'"
  | none => Sql.typed dimension "text"

/-- What a query for attributes selects, and the name that each value gets. -/
def Lookup.outputs (lookup : Lookup) (dimensions : List String) : List (String × String) :=
  [(Sql.typed lookup.userColumn "text", Store.AttributeRow.userColumn),
    (Sql.optionalColumn lookup.sessionColumn "text", Store.AttributeRow.sessionColumn),
    (Sql.typed lookup.timeColumn "timestamptz", Store.AttributeRow.timeColumn)] ++
    dimensions.map fun dimension => (lookup.dimensionValue dimension, dimension)

namespace Sql

/-- The last parts may be put together first. -/
theorem intercalate_append {separator : String} {first rest : List String} (hfirst : first ≠ [])
    (hrest : rest ≠ []) : separator.intercalate (first ++ [separator.intercalate rest]) =
      separator.intercalate (first ++ rest) := by
  rw [String.intercalate_append_of_ne_nil hfirst (List.cons_ne_nil _ _),
    String.intercalate_singleton, String.intercalate_append_of_ne_nil hfirst hrest]

theorem dimensionColumn_eq (lookup : Lookup) (dimension : String) :
    dimensionColumn lookup.attributesColumn dimension =
      lookup.dimensionValue dimension ++ " AS " ++ dimension := by
  have hclose : "' AS " = "'" ++ " AS " := by decide
  unfold dimensionColumn Lookup.dimensionValue
  cases lookup.attributesColumn with
  | none => rfl
  | some attributes =>
    simp only [hclose]
    simp only [String.append_assoc]

/-- What a query for attributes selects, if it is about some dimension. -/
theorem attributesQuery_eq {lookup : Lookup} {dimensions : List String} (hne : dimensions ≠ []) :
    attributesQuery lookup dimensions =
      "SELECT " ++ ", ".intercalate ((lookup.outputs dimensions).map fun output =>
          output.1 ++ " AS " ++ output.2) ++
        " FROM " ++ lookup.table ++
        " WHERE " ++ " AND ".intercalate ([lookup.userColumn, lookup.timeColumn].map present) := by
  have hdimensions : dimensions.map (dimensionColumn lookup.attributesColumn) ≠ [] := by
    simpa using hne
  have houtputs : (lookup.outputs dimensions).map (fun output => output.1 ++ " AS " ++ output.2) =
      [column lookup.userColumn "text" "user_id",
        optionalColumn lookup.sessionColumn "text" ++ " AS session_id",
        column lookup.timeColumn "timestamptz" "observed_at"] ++
        dimensions.map (dimensionColumn lookup.attributesColumn) := by
    have halias : " AS session_id" = " AS " ++ "session_id" := by decide
    rw [Lookup.outputs, List.map_append, List.map_map, halias, ← String.append_assoc]
    congr 1
    exact List.map_congr_left fun dimension _ => (dimensionColumn_eq lookup dimension).symm
  rw [houtputs, ← intercalate_append (List.cons_ne_nil _ _) hdimensions]
  rfl

end Sql

namespace Store.AttributeRow

variable {row : AttributeRow} {dimensions : List String} {name : String}

/-- A row with a column for each of some dimensions. -/
def Answers (row : AttributeRow) (dimensions : List String) : Prop :=
  row.dimensions.map Prod.fst = dimensions

/-- The record of a row with user, session and time of the columns in front, and each dimension of
its own column. -/
def bound (row : AttributeRow) : AttributeRecord where
  user := row.user
  session := row.session
  observedAt := row.observedAt
  values := Dimensions.ofNames (row.dimensions.map Prod.fst) fun name =>
    (row.dimensions.lookup name).join

/-- The names of the columns in front. -/
def boundColumns : List String :=
  [userColumn, sessionColumn, timeColumn]

theorem map_fst_columns (row : AttributeRow) :
    row.columns.map Prod.fst = boundColumns ++ row.dimensions.map Prod.fst := by
  simp [columns, boundColumns, Function.comp_def]

theorem columns_eq (row : AttributeRow) :
    row.columns = [(userColumn, .text (some row.user)), (sessionColumn, .text row.session),
        (timeColumn, .instant row.observedAt)] ++
      row.dimensions.map (Prod.map id Cell.text) :=
  rfl

/-- A dimension is read from its own column, which is behind the others. -/
theorem cell?_of_mem (hnodup : (row.dimensions.map Prod.fst).Nodup)
    (hname : name ∈ row.dimensions.map Prod.fst) :
    row.cell? name = some (.text (row.dimensions.lookup name).join) := by
  obtain ⟨⟨name, value⟩, hmem, rfl⟩ := List.mem_map.1 hname
  have hunique : ∀ value', (name, value') ∈ row.dimensions → value' = value := fun value' hmem' =>
    (Prod.mk.inj (List.inj_on_of_nodup_map hnodup hmem' hmem rfl)).2
  have hlast : (row.dimensions.map (Prod.map id Cell.text)).findRev?
      (fun column => column.1 == name) = some (name, .text value) := by
    refine findRev?_eq_some_of_unique (List.mem_map.2 ⟨_, hmem, rfl⟩) (by simp) ?_
    rintro _ hcolumn heq
    obtain ⟨⟨name', value'⟩, hmem', rfl⟩ := List.mem_map.1 hcolumn
    obtain rfl : name' = name := by simpa using heq
    rw [Prod.map_apply, id, hunique value' hmem']
  rw [cell?, columns_eq, findRev?_append, hlast, lookup_eq_some_of_mem hmem hunique]
  rfl

/-- Where no dimension has its name, a column in front is read. -/
theorem cell?_of_not_mem (hname : name ∉ row.dimensions.map Prod.fst) :
    row.cell? name = ([(userColumn, .text (some row.user)), (sessionColumn, .text row.session),
      (timeColumn, .instant row.observedAt)].findRev? fun column => column.1 == name).map
        Prod.snd := by
  have hnone : (row.dimensions.map (Prod.map id Cell.text)).findRev?
      (fun column => column.1 == name) = none := by
    rw [List.findRev?_eq_find?_reverse, List.find?_eq_none]
    rintro _ hcolumn heq
    obtain ⟨⟨name', value'⟩, hmem', rfl⟩ := List.mem_map.1 (List.mem_reverse.1 hcolumn)
    exact hname (List.mem_map.2 ⟨_, hmem', by simpa using heq⟩)
  rw [cell?, columns_eq, findRev?_append, hnone]
  rfl

/-- The parts of a record are what the names of their columns stand for. -/
theorem toRecord_eq_ok_iff {record : AttributeRecord} :
    row.toRecord = .ok record ↔
      row.text? userColumn = some record.user ∧ row.text? sessionColumn = record.session ∧
        row.instant timeColumn = .ok record.observedAt ∧
        Dimensions.ofNames (row.dimensions.map Prod.fst) row.text? = record.values := by
  obtain ⟨user, session, observedAt, values⟩ := record
  unfold toRecord
  cases row.text? userColumn with
  | none => simp [throw, throwThe, MonadExceptOf.throw]
  | some found =>
    cases row.instant timeColumn with
    | error error => simp [bind, Except.bind]
    | ok time => simp [bind, Except.bind, pure, Except.pure]

theorem values_eq_bound (hnodup : (row.dimensions.map Prod.fst).Nodup) :
    Dimensions.ofNames (row.dimensions.map Prod.fst) row.text? = row.bound.values := by
  refine congrArg NameMap.ofList (List.map_congr_left fun name hname => ?_)
  rw [text?, cell?_of_mem hnodup hname]

theorem toRecord_eq_bound (hnodup : (row.dimensions.map Prod.fst).Nodup)
    (hfree : ∀ name ∈ boundColumns, name ∉ row.dimensions.map Prod.fst) :
    row.toRecord = .ok row.bound := by
  have huser := cell?_of_not_mem (hfree userColumn (by decide))
  have hsession := cell?_of_not_mem (hfree sessionColumn (by decide))
  have htime := cell?_of_not_mem (hfree timeColumn (by decide))
  refine toRecord_eq_ok_iff.2 ⟨?_, ?_, ?_, values_eq_bound hnodup⟩
  · rw [text?, huser]
    rfl
  · rw [text?, hsession]
    rfl
  · rw [instant, htime]
    rfl

/-- A row with nothing but a session, in which the dimensions are null. -/
def blank (dimensions : List String) : AttributeRow :=
  ⟨"", some "", ⟨0⟩, dimensions.map (·, none)⟩

theorem blank_answers (dimensions : List String) : (blank dimensions).Answers dimensions := by
  simp [Answers, blank, Function.comp_def]

/-- A dimension that hides user, session or time is read in its place. -/
theorem toRecord_blank_ne (hnodup : dimensions.Nodup) (hbound : name ∈ boundColumns)
    (hname : name ∈ dimensions) : (blank dimensions).toRecord ≠ .ok (blank dimensions).bound := by
  have hcell : (blank dimensions).cell? name = some (.text none) := by
    have hcolumns : (blank dimensions).dimensions.map Prod.fst = dimensions :=
      blank_answers dimensions
    rw [cell?_of_mem (by rwa [hcolumns]) (by rwa [hcolumns]), blank, lookup_map_of_mem hname]
    rfl
  intro h
  obtain ⟨huser, hsession, htime, -⟩ := toRecord_eq_ok_iff.1 h
  simp only [boundColumns, List.mem_cons, List.not_mem_nil, or_false] at hbound
  rcases hbound with rfl | rfl | rfl
  · rw [text?, hcell] at huser
    cases huser
  · rw [text?, hcell] at hsession
    cases hsession
  · rw [instant, hcell] at htime
    cases htime

end Store.AttributeRow

open Store (AttributeRow)

/-- What is read of the rows that answer a query for attributes. -/
structure Lookup.ReadsColumns (lookup : Lookup) (dimensions : List String) : Prop where
  /-- The query selects the bound columns and the dimensions under their names, -/
  attributesQuery_eq : Sql.attributesQuery lookup dimensions =
    "SELECT " ++ ", ".intercalate ((lookup.outputs dimensions).map fun output =>
        output.1 ++ " AS " ++ output.2) ++
      " FROM " ++ lookup.table ++
      " WHERE " ++ " AND ".intercalate ([lookup.userColumn, lookup.timeColumn].map Sql.present)
  /-- which are the names of the columns of its rows. -/
  map_fst_columns : ∀ row : AttributeRow, row.Answers dimensions →
    row.columns.map Prod.fst = (lookup.outputs dimensions).map Prod.snd
  /-- They are distinct if no dimension has the name of a bound column. -/
  nodup_iff : ((lookup.outputs dimensions).map Prod.snd).Nodup ↔
    ∀ name ∈ AttributeRow.boundColumns, name ∉ dimensions
  /-- Each dimension is read from its own column in any case. -/
  values_eq : ∀ (row : AttributeRow) (record : AttributeRecord), row.Answers dimensions →
    row.toRecord = .ok record → record.values = row.bound.values
  /-- User, session and time are read from the bound columns if all names are distinct, and in some
  row are not if some name is there twice. -/
  reads_iff : ((lookup.outputs dimensions).map Prod.snd).Nodup ↔
    ∀ row : AttributeRow, row.Answers dimensions → row.toRecord = .ok row.bound

theorem Lookup.map_snd_outputs (lookup : Lookup) (dimensions : List String) :
    (lookup.outputs dimensions).map Prod.snd = AttributeRow.boundColumns ++ dimensions := by
  simp [outputs, AttributeRow.boundColumns, Function.comp_def]

theorem Lookup.nodup_outputs_iff {lookup : Lookup} {dimensions : List String}
    (hnodup : dimensions.Nodup) : ((lookup.outputs dimensions).map Prod.snd).Nodup ↔
      ∀ name ∈ AttributeRow.boundColumns, name ∉ dimensions := by
  have hbound : AttributeRow.boundColumns.Nodup := by decide
  rw [map_snd_outputs, List.nodup_append']
  exact ⟨fun h name => (h.2.2 ·), fun h => ⟨hbound, hnodup, fun name => h name⟩⟩

/-- This is how it is for dimensions that are distinct and not none at all. -/
theorem Lookup.readsColumns (lookup : Lookup) {dimensions : List String} (hne : dimensions ≠ [])
    (hnodup : dimensions.Nodup) : lookup.ReadsColumns dimensions where
  attributesQuery_eq := Sql.attributesQuery_eq hne
  map_fst_columns row hrow := by
    rw [row.map_fst_columns, lookup.map_snd_outputs, hrow]
  nodup_iff := nodup_outputs_iff hnodup
  values_eq row record hrow hrecord := by
    obtain ⟨-, -, -, hvalues⟩ := AttributeRow.toRecord_eq_ok_iff.1 hrecord
    rw [← hvalues, AttributeRow.values_eq_bound (hrow ▸ hnodup)]
  reads_iff := by
    rw [nodup_outputs_iff hnodup]
    constructor
    · intro hfree row hrow
      exact AttributeRow.toRecord_eq_bound (hrow ▸ hnodup) (hrow ▸ hfree)
    · intro hreads name hbound hname
      exact AttributeRow.toRecord_blank_ne hnodup hbound hname
        (hreads _ (AttributeRow.blank_answers dimensions))

/-- Attributes of accounts. -/
def Lookup.accounts : Lookup where
  table := "shop.accounts"
  userColumn := "account_id"
  sessionColumn := none
  timeColumn := "changed_at"
  attributesColumn := none
  selection := .latest

namespace Config

variable {config : Config} {warnings : List Ambiguity} {lookup : Lookup}

/-- An accepted configuration reads its dimensions from their own columns, and users, sessions and
times from the columns that are bound to them unless a dimension has the name of one of these. -/
theorem validate_reads_columns (h : config.validate = .ok warnings)
    (hlookup : config.lookup = some lookup) : lookup.ReadsColumns config.dimensions := by
  obtain ⟨-, -, -, hdimensions, -, -⟩ := check_eq_ok_iff.1 (validate_eq_ok_iff.1 h).1
  obtain ⟨-, hnodup, hne⟩ := checkDimensions_eq_ok_iff.1 hdimensions
  exact lookup.readsColumns (hne (by rw [hlookup]; rfl)) hnodup

/-- A funnel that looks up some dimensions. -/
def segmented (dimensions : List String) : Config :=
  { visits "reports" with dimensions, lookup := some .accounts }

theorem validate_segmented_reads_columns :
    (segmented ["os"]).validate = .ok [] ∧ (segmented ["os"]).lookup = some .accounts ∧
      Lookup.accounts.ReadsColumns (segmented ["os"]).dimensions ∧
      ((Lookup.accounts.outputs ["os"]).map Prod.snd).Nodup := by
  have hvalidate : (segmented ["os"]).validate = .ok [] :=
    validate_eq_ok_iff.2 ⟨check_eq_ok_of_isOk (by decide +kernel), by cbv⟩
  exact ⟨hvalidate, rfl, validate_reads_columns hvalidate rfl, by decide⟩

/-- A dimension may be called as the column of users is. It hides that column: where a row for one
user holds the name of another one in the dimension, the record is that of the other one. -/
theorem validate_accepts_hidden_users :
    (segmented ["user_id"]).validate = .ok [] ∧ (segmented ["user_id"]).lookup = some .accounts ∧
      ¬ ((Lookup.accounts.outputs ["user_id"]).map Prod.snd).Nodup ∧
      ∃ row : AttributeRow, row.Answers ["user_id"] ∧ row.user = "ann" ∧
        row.toRecord = .ok { row.bound with user := "bob" } := by
  refine ⟨validate_eq_ok_iff.2 ⟨check_eq_ok_of_isOk (by decide +kernel), by cbv⟩, rfl, by decide,
    ⟨"ann", none, ⟨0⟩, [("user_id", some "bob")]⟩, rfl, rfl, rfl⟩

end Config

end Funnel
