import Funnel.Config.Validate
import Funnel.Store.Statement

/-!
# Where names stand in SQL texts

The text of a statement is put together from texts of the program, names and predicates of a
configuration. A list of fragments keeps these apart.
-/

namespace Funnel

/-- A part of an SQL text. -/
inductive Fragment
  /-- A text of the program. -/
  | fixed (s : String)
  /-- A name of a table, schema or column that was configured. -/
  | name (s : String)
  /-- A condition that was configured. -/
  | predicate (s : String)
deriving DecidableEq

namespace Fragment

def text : Fragment → String
  | fixed s | name s | predicate s => s

def name? : Fragment → Option String
  | name s => some s
  | _ => none

def render (fragments : List Fragment) : String :=
  String.join (fragments.map text)

/-- The names among some fragments. -/
def names (fragments : List Fragment) : List String :=
  fragments.filterMap name?

@[simp]
theorem render_nil : render [] = "" := rfl

@[simp]
theorem render_cons (fragment : Fragment) (fragments : List Fragment) :
    render (fragment :: fragments) = fragment.text ++ render fragments :=
  String.join_cons

@[simp]
theorem render_append (first second : List Fragment) :
    render (first ++ second) = render first ++ render second := by
  rw [render, List.map_append, String.join_append]
  rfl

theorem render_singleton (fragment : Fragment) : render [fragment] = fragment.text := by
  rw [render_cons, render_nil, String.append_empty]

theorem render_pair (first second : Fragment) :
    render [first, second] = first.text ++ second.text := by
  rw [render_cons, render_singleton]

theorem render_intercalate (separator : List Fragment) (parts : List (List Fragment)) :
    render (separator.intercalate parts) =
      (render separator).intercalate (parts.map render) := by
  induction parts with
  | nil => rfl
  | cons part parts ih =>
    cases parts with
    | nil => simp
    | cons next rest => simp_all [String.append_assoc]

theorem render_flatMap {α : Type} (f : α → List Fragment) (xs : List α) :
    render (xs.flatMap f) = String.join (xs.map fun x => render (f x)) := by
  induction xs with
  | nil => rfl
  | cons x xs ih => simp [ih]

@[simp]
theorem names_append (first second : List Fragment) :
    names (first ++ second) = names first ++ names second :=
  List.filterMap_append ..

@[simp]
theorem names_cons_fixed (s : String) (fragments : List Fragment) :
    names (.fixed s :: fragments) = names fragments := rfl

@[simp]
theorem names_cons_name (s : String) (fragments : List Fragment) :
    names (.name s :: fragments) = s :: names fragments := rfl

@[simp]
theorem names_cons_predicate (s : String) (fragments : List Fragment) :
    names (.predicate s :: fragments) = names fragments := rfl

@[simp]
theorem names_nil : names [] = [] := rfl

/-- No names stand between parts that are separated by a text of the program. -/
theorem names_intercalate (separator : String) (parts : List (List Fragment)) :
    names ([fixed separator].intercalate parts) = parts.flatMap names := by
  induction parts with
  | nil => rfl
  | cons part parts ih =>
    cases parts with
    | nil => simp
    | cons next rest => simp_all

/-- A value of some type under a new name. -/
def column (value type : String) (name : Fragment) : List Fragment :=
  [.name value, .fixed ("::" ++ type ++ " AS "), name]

/-- A column of texts, of nulls where there is no such column. -/
def optionalColumn (value : Option String) (type : String) : List Fragment :=
  [value.elim (.fixed "NULL") .name, .fixed ("::" ++ type)]

/-- The condition that a value is there. -/
def present (value : String) : List Fragment :=
  [.name value, .fixed " IS NOT NULL"]

/-- The value of a dimension, a member of the attributes or a column of its own. -/
def dimensionColumn (attributesColumn : Option String) (dimension : String) : List Fragment :=
  match attributesColumn with
  | some attributes =>
    [.name attributes, .fixed "::jsonb ->> '", .name dimension, .fixed "' AS ", .name dimension]
  | none => column dimension "text" (.name dimension)

@[simp]
theorem render_column (value type : String) (name : Fragment) :
    render (column value type name) = Sql.column value type name.text := by
  simp [column, Sql.column, text, String.append_assoc]

@[simp]
theorem render_optionalColumn (value : Option String) (type : String) :
    render (optionalColumn value type) = Sql.optionalColumn value type := by
  -- literals that are merged on one side only would not agree any more
  cases value <;>
    simp [-String.reduceAppend, optionalColumn, Sql.optionalColumn, text, String.append_assoc]

@[simp]
theorem render_present (value : String) : render (present value) = Sql.present value := by
  simp [present, Sql.present, text]

@[simp]
theorem render_dimensionColumn (attributesColumn : Option String) (dimension : String) :
    render (dimensionColumn attributesColumn dimension) =
      Sql.dimensionColumn attributesColumn dimension := by
  cases attributesColumn <;>
    simp [dimensionColumn, Sql.dimensionColumn, text, String.append_assoc]

@[simp]
theorem names_column (value type name : String) :
    names (column value type (.fixed name)) = [value] := rfl

@[simp]
theorem names_optionalColumn (value : Option String) (type : String) :
    names (optionalColumn value type) = value.toList := by
  cases value <;> rfl

@[simp]
theorem names_present (value : String) : names (present value) = [value] := rfl

theorem mem_names_dimensionColumn {attributesColumn : Option String} {dimension name : String}
    (h : name ∈ names (dimensionColumn attributesColumn dimension)) :
    name ∈ attributesColumn.toList ∨ name = dimension := by
  cases attributesColumn <;> simp_all [dimensionColumn, column]

theorem names_predicates (filters : List String) (before after : String) :
    names (filters.flatMap fun filter => [.fixed before, .predicate filter, .fixed after]) =
      [] := by
  induction filters with
  | nil => rfl
  | cons filter filters ih => simpa using ih

end Fragment

open Fragment in
/-- The query for the events of a source. -/
def Source.fragments (source : Source) (filters : List String) (windowed : Bool) :
    List Fragment :=
  let session := source.sessionColumn.getD source.userColumn
  [.fixed "SELECT "] ++ [.fixed ", "].intercalate [
      column source.userColumn "text" (.fixed "user_id"),
      column session "text" (.fixed "session_id"),
      column source.eventColumn "text" (.fixed "event_type"),
      column source.timeColumn "timestamptz" (.fixed "occurred_at"),
      optionalColumn source.propertiesColumn "jsonb" ++ [.fixed " AS properties"]] ++
    [.fixed " FROM ", .name source.table, .fixed " WHERE "] ++
    [.fixed " AND "].intercalate
      ([source.userColumn, session, source.eventColumn, source.timeColumn].map present) ++
    (if windowed then [.fixed " AND ", .name source.timeColumn, .fixed "::timestamptz >= $1"]
      else []) ++
    filters.flatMap fun filter => [.fixed " AND (", .predicate filter, .fixed ")"]

open Fragment in
/-- The query for the attributes of a lookup. -/
def Lookup.fragments (lookup : Lookup) (dimensions : List String) : List Fragment :=
  [.fixed "SELECT "] ++ [.fixed ", "].intercalate [
      column lookup.userColumn "text" (.fixed "user_id"),
      optionalColumn lookup.sessionColumn "text" ++ [.fixed " AS session_id"],
      column lookup.timeColumn "timestamptz" (.fixed "observed_at"),
      [.fixed ", "].intercalate (dimensions.map (dimensionColumn lookup.attributesColumn))] ++
    [.fixed " FROM ", .name lookup.table, .fixed " WHERE "] ++
    [.fixed " AND "].intercalate ([lookup.userColumn, lookup.timeColumn].map present)

theorem Source.render_fragments (source : Source) (filters : List String) (windowed : Bool) :
    Fragment.render (source.fragments filters windowed) =
      Sql.eventsQuery source filters windowed := by
  cases windowed <;>
    simp [-String.reduceAppend, fragments, Sql.eventsQuery, Fragment.render_flatMap,
      Fragment.text, String.append_assoc]

theorem Lookup.render_fragments (lookup : Lookup) (dimensions : List String) :
    Fragment.render (lookup.fragments dimensions) = Sql.attributesQuery lookup dimensions := by
  have hdimensions : dimensions.map
      (Fragment.render ∘ Fragment.dimensionColumn lookup.attributesColumn) =
        dimensions.map (Sql.dimensionColumn lookup.attributesColumn) :=
    List.map_congr_left fun dimension _ => Fragment.render_dimensionColumn ..
  simp [-String.reduceAppend, fragments, Sql.attributesQuery, Fragment.render_intercalate,
    hdimensions, Fragment.text, String.append_assoc]

@[simp]
theorem Binding.map_value_ofOption (field : String) (value : Option String) :
    (Binding.ofOption field value).map Binding.value = value.toList := by
  cases value <;> rfl

/-- The names in a query for events are names of the source. -/
theorem Source.names_fragments_subset (source : Source) (filters : List String)
    (windowed : Bool) :
    Fragment.names (source.fragments filters windowed) ⊆ source.bindings.map Binding.value := by
  obtain ⟨table, user, session, event, time, properties⟩ := source
  cases session <;> cases properties <;> cases windowed <;>
    simp [fragments, bindings, Fragment.names_predicates]

/-- The names in a query for attributes are names of the lookup, and dimensions. -/
theorem Lookup.names_fragments_subset (lookup : Lookup) (dimensions : List String) :
    Fragment.names (lookup.fragments dimensions) ⊆
      lookup.bindings.map Binding.value ++ dimensions := by
  obtain ⟨table, user, session, time, attributes, selection⟩ := lookup
  have hdimensions : (dimensions.map (Fragment.dimensionColumn attributes)).flatMap
      Fragment.names ⊆ attributes.toList ++ dimensions := by
    intro name h
    obtain ⟨_, hmem, hname⟩ := List.mem_flatMap.1 h
    obtain ⟨dimension, hdimension, rfl⟩ := List.mem_map.1 hmem
    rcases Fragment.mem_names_dimensionColumn hname with hattributes | rfl
    · exact List.mem_append_left _ hattributes
    · exact List.mem_append_right _ hdimension
  cases session with
  | none =>
    simpa [fragments, bindings, Fragment.names_intercalate] using
      List.Subset.trans hdimensions (List.subset_append_right [table, user, time] _)
  | some session =>
    simpa [fragments, bindings, Fragment.names_intercalate] using
      List.Subset.trans hdimensions (List.subset_append_right [table, user, time, session] _)

namespace Store

/-- The text that creates a table. -/
def tableFragments (table : String) (columns : List ColumnDefinition) : List Fragment :=
  [.fixed "CREATE TABLE IF NOT EXISTS ", .name table,
    .fixed (" ( " ++ ", ".intercalate (columns.map fun (name, type) => name ++ " " ++ type) ++
      " )")]

/-- The text in front of the rows of an insertion. -/
def insertFragments (table : String) (columns : List String) : List Fragment :=
  [.fixed "INSERT INTO ", .name table,
    .fixed (" (" ++ ", ".intercalate columns ++ ") VALUES")]

theorem render_tableFragments (table : String) (columns : List ColumnDefinition) :
    Fragment.render (tableFragments table columns) = createTableText table columns := by
  unfold tableFragments createTableText
  simp only [Fragment.render_cons, Fragment.render_nil, Fragment.text, String.append_empty]
  simp only [String.append_assoc]

theorem render_insertFragments (table : String) (columns : List String) :
    Fragment.render (insertFragments table columns) = insertText table columns := by
  unfold insertFragments insertText
  simp only [Fragment.render_cons, Fragment.render_nil, Fragment.text, String.append_empty]
  simp only [String.append_assoc]

namespace Statement

/-- The text of a statement in fragments. -/
def fragments : Statement → List Fragment
  | begin => [.fixed "BEGIN"]
  | commit => [.fixed "COMMIT"]
  | createTables => [.fixed tablesText]
  | insertEvent _ => [.fixed insertEventText]
  | insertAttributes _ => [.fixed insertAttributesText]
  | selectEvents source filters since => source.fragments filters since.isSome
  | selectAttributes lookup dimensions => lookup.fragments dimensions
  | createSchema schema => [.fixed "CREATE SCHEMA IF NOT EXISTS ", .name schema]
  | createFunnelTable table => tableFragments table entryColumns
  | createMetricsTable table => tableFragments table metricColumns
  | deleteAll table => [.fixed "DELETE FROM ", .name table]
  | insertEntries table _ _ => insertFragments table (entryColumns.map Prod.fst)
  | insertMetrics table _ _ => insertFragments table (metricColumns.map Prod.fst)
  | selectMetrics table =>
    [.fixed ("SELECT " ++ ", ".intercalate ("run_at" :: Sql.metricsColumns) ++ " FROM "),
      .name table]

/-- The names that stand in the text of a statement. -/
def names (statement : Statement) : List String :=
  Fragment.names statement.fragments

/-- The fragments of a statement make up its text. -/
theorem sql_eq_render (statement : Statement) :
    statement.sql = Fragment.render statement.fragments := by
  cases statement with
  | selectEvents source filters since => exact (source.render_fragments ..).symm
  | selectAttributes lookup dimensions => exact (lookup.render_fragments ..).symm
  | createFunnelTable table | createMetricsTable table =>
    exact (render_tableFragments table _).symm
  | insertEntries table stamp rows | insertMetrics table stamp rows =>
    exact (render_insertFragments table _).symm
  | createSchema schema | deleteAll table | selectMetrics table =>
    rw [fragments, Fragment.render_pair]
    rfl
  | begin | commit | createTables | insertEvent _ | insertAttributes _ =>
    rw [fragments, Fragment.render_singleton]
    rfl

end Statement

end Store

end Funnel
