import Funnel.Proofs.Command.Run
import Funnel.Proofs.Config.WellFormed

/-!
# The names of published relations

The schema is all that stands in front of the last point of a relation's name, so different
destinations have no relation in common. A schema with a point itself is accepted, and the names are
no identifiers then.
-/

namespace Funnel

namespace Sql

variable {schema schema' name name' : String}

theorem eq_nil_of_point {between before after : List Char} (hbefore : '.' ∉ before)
    (h : '.' :: before = between ++ '.' :: after) : between = [] := by
  cases between with
  | nil => rfl
  | cons c between =>
    rw [List.cons_append, List.cons.injEq] at h
    exact absurd (by simp [h.2]) hbefore

/-- A text determines what stands in front of its last point, and what behind. -/
theorem eq_of_qualified_eq (hname : '.' ∉ name.toList) (hname' : '.' ∉ name'.toList)
    (h : schema ++ "." ++ name = schema' ++ "." ++ name') : schema = schema' ∧ name = name' := by
  have hlist : schema.toList ++ '.' :: name.toList = schema'.toList ++ '.' :: name'.toList := by
    simpa using congrArg String.toList h
  rw [← String.toList_inj, ← String.toList_inj]
  rcases List.append_eq_append_iff.1 hlist with
    ⟨between, hschema, hpoint⟩ | ⟨between, hschema, hpoint⟩
  · rw [eq_nil_of_point hname hpoint] at hschema hpoint
    rw [List.append_nil] at hschema
    exact ⟨hschema.symm, (List.cons.inj hpoint).2⟩
  · rw [eq_nil_of_point hname' hpoint] at hschema hpoint
    rw [List.append_nil] at hschema
    exact ⟨hschema, (List.cons.inj hpoint).2.symm⟩

/-- A plain name in a schema is an identifier if the schema has a plain name itself. -/
theorem isIdentifier_qualified_iff (hname : IsPlainName name) :
    isIdentifier (schema ++ "." ++ name) = true ↔ IsPlainName schema := by
  rw [isIdentifier_iff]
  constructor
  · generalize hs : schema ++ "." ++ name = s
    rintro (hplain | ⟨hschema', hname'⟩)
    · exact absurd (by simp [← hs]) hplain.point_not_mem
    · exact (eq_of_qualified_eq hname.point_not_mem hname'.point_not_mem hs).1 ▸ hschema'
  · exact fun hschema => .qualified hschema hname

/-- A plain name goes on with letters, digits and underscores. -/
theorem IsPlainName.append (h : IsPlainName name) {suffix : String}
    (hsuffix : suffix.toList.all isWordChar = true) : IsPlainName (name ++ suffix) := by
  have hword := isWord_iff.2 h
  rw [← isWord_iff, String.toList_append]
  cases hname : name.toList with
  | nil =>
    rw [hname] at hword
    cases hword
  | cons c cs =>
    rw [hname, isWord, Bool.and_eq_true] at hword
    rw [List.cons_append, isWord, List.all_append, hword.1, hword.2, hsuffix]
    rfl

end Sql

namespace Destination

variable {destination other : Destination}

/-- The names of both relations. -/
def tables (destination : Destination) : List String :=
  [destination.funnelTable, destination.metricsTable]

/-- What the names of the relations end with. -/
def suffixes : List String :=
  ["_funnel", "_metrics"]

/-- What the names of both relations are like. -/
structure NamesTables (destination : Destination) : Prop where
  schema : Sql.IsName destination.schema
  /-- They are plain names in the schema, -/
  isPlainName : ∀ suffix ∈ suffixes, Sql.IsPlainName (destination.stem ++ suffix)
  tables_eq : destination.tables =
    suffixes.map fun suffix => destination.schema ++ "." ++ (destination.stem ++ suffix)
  /-- and two of them. -/
  nodup : destination.tables.Nodup
  /-- They are identifiers if the schema has no point. -/
  isIdentifier_iff : ∀ table ∈ destination.tables,
    Sql.isIdentifier table = true ↔ Sql.isUnqualified destination.schema = true
  /-- That schema is the one which is created for them. -/
  createSchema : ∀ stamp output, ∀ schema,
    .createSchema schema ∈ Store.transaction destination stamp output ↔
      schema = destination.schema

theorem tables_eq_map (destination : Destination) : destination.tables =
    suffixes.map fun suffix => destination.schema ++ "." ++ (destination.stem ++ suffix) := by
  simp [tables, suffixes, funnelTable, metricsTable, String.append_assoc]

theorem exists_suffix_of_mem_tables {table : String} (h : table ∈ destination.tables) :
    ∃ suffix ∈ suffixes, table = destination.schema ++ "." ++ (destination.stem ++ suffix) := by
  rw [tables_eq_map] at h
  obtain ⟨suffix, hsuffix, rfl⟩ := List.mem_map.1 h
  exact ⟨suffix, hsuffix, rfl⟩

theorem isPlainName_append_suffix {stem suffix : String} (hstem : Sql.IsPlainName stem)
    (hsuffix : suffix ∈ suffixes) : Sql.IsPlainName (stem ++ suffix) := by
  have hword : ∀ suffix ∈ suffixes, suffix.toList.all Sql.isWordChar = true := by decide
  exact hstem.append (hword suffix hsuffix)

/-- The suffixes differ in their last characters. -/
theorem eq_of_append_suffix_eq {stem stem' suffix suffix' : String} (hsuffix : suffix ∈ suffixes)
    (hsuffix' : suffix' ∈ suffixes) (h : stem ++ suffix = stem' ++ suffix') : stem = stem' := by
  have hlast : ∀ suffix ∈ suffixes, ∀ suffix' ∈ suffixes,
      suffix.toList.getLast? = suffix'.toList.getLast? → suffix = suffix' := by decide
  have hne : ∀ suffix ∈ suffixes, suffix.toList ≠ [] := by decide
  have hends := congrArg (fun s => s.toList.getLast?) h
  simp only [String.toList_append, List.getLast?_append_of_ne_nil _ (hne suffix hsuffix),
    List.getLast?_append_of_ne_nil _ (hne suffix' hsuffix')] at hends
  rw [hlast suffix hsuffix suffix' hsuffix' hends] at h
  exact (String.append_left_inj _).1 h

theorem IsNamed.namesTables (h : destination.IsNamed) : destination.NamesTables where
  schema := h.schema
  isPlainName _ := isPlainName_append_suffix h.stem
  tables_eq := destination.tables_eq_map
  nodup := by simpa [tables] using destination.funnelTable_ne_metricsTable
  isIdentifier_iff table hmem := by
    obtain ⟨suffix, hsuffix, rfl⟩ := exists_suffix_of_mem_tables hmem
    rw [Sql.isIdentifier_qualified_iff (isPlainName_append_suffix h.stem hsuffix),
      Sql.isUnqualified_iff]
  createSchema stamp output schema := by
    simp [Store.transaction, Store.publication]

/-- Destinations that differ in their schema or in what their relations are called after have no
relation in common. -/
theorem not_mem_tables (h : destination.IsNamed) (h' : other.IsNamed) (hne : destination ≠ other)
    {table : String} (hmem : table ∈ destination.tables) : table ∉ other.tables := by
  intro hmem'
  obtain ⟨suffix, hsuffix, rfl⟩ := exists_suffix_of_mem_tables hmem
  obtain ⟨suffix', hsuffix', heq⟩ := exists_suffix_of_mem_tables hmem'
  have hname := isPlainName_append_suffix h.stem hsuffix
  have hname' := isPlainName_append_suffix h'.stem hsuffix'
  obtain ⟨hschema, hstem⟩ :=
    Sql.eq_of_qualified_eq hname.point_not_mem hname'.point_not_mem heq
  have hstem' := eq_of_append_suffix_eq hsuffix hsuffix' hstem
  obtain ⟨schema, stem⟩ := destination
  obtain ⟨schema', stem'⟩ := other
  exact hne (by rw [show schema = schema' from hschema, show stem = stem' from hstem'])

end Destination

namespace Config

variable {config : Config} {warnings : List Ambiguity}

theorem isNamed_destination_of_validate (h : config.validate = .ok warnings) :
    config.destination.IsNamed := by
  obtain ⟨-, hbindings, -⟩ := check_eq_ok_iff.1 (validate_eq_ok_iff.1 h).1
  exact (forall_bindings_isNamed_iff.1 fun binding hbinding =>
    Binding.check_eq_ok_iff.1 (hbindings binding hbinding)).2.1

/-- The relations of an accepted configuration have different plain names in a schema that has a
name, and are identifiers if that is a plain one. Two accepted destinations have a relation in
common only if they are the same. -/
theorem validate_names_tables (h : config.validate = .ok warnings) :
    config.destination.NamesTables ∧
      ∀ (other : Config) (warnings' : List Ambiguity), other.validate = .ok warnings' →
        config.destination ≠ other.destination →
          ∀ table ∈ config.destination.tables, table ∉ other.destination.tables := by
  have hnamed := isNamed_destination_of_validate h
  exact ⟨hnamed.namesTables, fun other warnings' hother hne table hmem =>
    Destination.not_mem_tables hnamed (isNamed_destination_of_validate hother) hne hmem⟩

theorem validate_names_tables_visits :
    (visits "reports").validate = .ok [] ∧ (visits "archive").validate = .ok [] ∧
      (visits "reports").destination.NamesTables ∧
      "reports.visits_funnel" ∈ (visits "reports").destination.tables ∧
      "reports.visits_funnel" ∉ (visits "archive").destination.tables := by
  have hreports : (visits "reports").validate = .ok [] :=
    validate_eq_ok_iff.2 ⟨check_eq_ok_of_isOk (by decide +kernel), by cbv⟩
  have harchive : (visits "archive").validate = .ok [] :=
    validate_eq_ok_iff.2 ⟨check_eq_ok_of_isOk (by decide +kernel), by cbv⟩
  have hmem : "reports.visits_funnel" ∈ (visits "reports").destination.tables := by decide
  obtain ⟨hnames, hdisjoint⟩ := validate_names_tables hreports
  exact ⟨hreports, harchive, hnames, hmem, hdisjoint _ _ harchive (by decide) _ hmem⟩

/-- The schema of an accepted configuration may have a point. It is no plain name then, the names of
the relations have three parts, and the schema is created under that name. -/
theorem validate_accepts_qualified_schema :
    (visits "warehouse.reports").validate = .ok [] ∧
      (visits "warehouse.reports").destination.tables =
        ["warehouse.reports.visits_funnel", "warehouse.reports.visits_metrics"] ∧
      (∀ table ∈ (visits "warehouse.reports").destination.tables,
        Sql.isIdentifier table = false) ∧
      Sql.isUnqualified (visits "warehouse.reports").destination.schema = false ∧
      ∀ stamp output, .createSchema "warehouse.reports" ∈
        Store.transaction (visits "warehouse.reports").destination stamp output := by
  refine ⟨validate_eq_ok_iff.2 ⟨check_eq_ok_of_isOk (by decide +kernel), by cbv⟩, by decide,
    by decide, by decide, fun stamp output => ?_⟩
  simp [Store.transaction, Store.publication, visits]

end Config

end Funnel
