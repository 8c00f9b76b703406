import Funnel.Dimensions.Basic
import Funnel.Proofs.Grouping

/-!
# Which names a map has

A dimension map made for some names has these names and no others, and under each of them the value
that it was made with. Names and values are all there is to a dimension map.
-/

namespace Funnel

open Std

namespace NameMap

variable {α β : Type}

theorem mem_map_fst_insertEntry {name other : String} {value : α} {entries : List (String × α)} :
    other ∈ (insertEntry name value entries).map Prod.fst ↔
      other = name ∨ other ∈ entries.map Prod.fst := by
  induction entries with
  | nil => simp [insertEntry]
  | cons entry rest ih =>
    unfold insertEntry
    split
    · simp
    · rename_i heq
      obtain rfl := LawfulEqOrd.eq_of_compare heq
      simp
    · rw [List.map_cons, List.mem_cons, ih, List.map_cons, List.mem_cons, or_left_comm]

@[simp]
theorem mem_names_insert {m : NameMap α} {name other : String} {value : α} :
    other ∈ (m.insert name value).names ↔ other = name ∨ other ∈ m.names :=
  mem_map_fst_insertEntry

@[simp]
theorem mem_names_ofList {entries : List (String × α)} {name : String} :
    name ∈ (ofList entries).names ↔ name ∈ entries.map Prod.fst := by
  have hfold : ∀ m : NameMap α,
      name ∈ (entries.foldl (fun m entry => m.insert entry.1 entry.2) m).names ↔
        name ∈ m.names ∨ name ∈ entries.map Prod.fst := by
    induction entries with
    | nil => simp
    | cons entry rest ih =>
      intro m
      rw [List.foldl_cons, ih, mem_names_insert, List.map_cons, List.mem_cons, or_left_comm,
        or_assoc]
  rw [ofList, hfold empty]
  simp [names, empty]

theorem insertEntry_eq_append {name : String} {value : α} {entries : List (String × α)}
    (h : ∀ entry ∈ entries, compare entry.1 name = .lt) :
    insertEntry name value entries = entries ++ [(name, value)] := by
  induction entries with
  | nil => rfl
  | cons entry rest ih =>
    obtain ⟨hentry, hrest⟩ := List.forall_mem_cons.1 h
    rw [insertEntry, OrientedCmp.gt_of_lt hentry]
    exact congrArg (entry :: ·) (ih hrest)

/-- Entries that are inserted in ascending order, above those of a map, stand behind them. -/
theorem entries_foldl_insert {m : NameMap α} {entries : List (String × α)}
    (h : (m.entries ++ entries).Pairwise fun a b => compare a.1 b.1 = .lt) :
    (entries.foldl (fun m entry => m.insert entry.1 entry.2) m).entries =
      m.entries ++ entries := by
  induction entries generalizing m with
  | nil => rw [List.foldl_nil, List.append_nil]
  | cons entry rest ih =>
    obtain ⟨-, -, hbefore⟩ := List.pairwise_append.1 h
    have hinsert : (m.insert entry.1 entry.2).entries = m.entries ++ [entry] :=
      insertEntry_eq_append fun other hother => hbefore other hother entry (List.mem_cons_self ..)
    rw [List.append_cons, ← hinsert] at h
    rw [List.foldl_cons, ih h, hinsert, List.append_assoc, List.singleton_append]

/-- A map is made of its entries. -/
@[simp]
theorem ofList_entries (m : NameMap α) : ofList m.entries = m := by
  refine entries_injective ?_
  rw [ofList, entries_foldl_insert m.ascending]
  rfl

theorem map_insertEntry (f : String → α → β) (name : String) (value : α)
    (entries : List (String × α)) :
    (insertEntry name value entries).map (fun entry => (entry.1, f entry.1 entry.2)) =
      insertEntry name (f name value) (entries.map fun entry => (entry.1, f entry.1 entry.2)) := by
  induction entries with
  | nil => rfl
  | cons entry rest ih =>
    rw [List.map_cons, insertEntry, insertEntry]
    cases compare name entry.1 with
    | lt => rfl
    | eq => rfl
    | gt => exact congrArg (_ :: ·) ih

/-- A map made of entries has new values as the map made of the entries with new values. -/
theorem map_ofList (f : String → α → β) (entries : List (String × α)) :
    (ofList entries).map f = ofList (entries.map fun entry => (entry.1, f entry.1 entry.2)) := by
  have hinsert : ∀ (m : NameMap α) (entry : String × α),
      (m.map f).insert entry.1 (f entry.1 entry.2) = (m.insert entry.1 entry.2).map f :=
    fun m entry => entries_injective (map_insertEntry f entry.1 entry.2 m.entries).symm
  rw [ofList, ofList, List.foldl_map]
  exact (List.foldl_hom (map f) hinsert).symm

theorem find?_insertEntry {name other : String} {value : α} {entries : List (String × α)} :
    (insertEntry name value entries).find? (fun entry => entry.1 == other) =
      if name = other then some (name, value) else entries.find? fun entry => entry.1 == other := by
  induction entries with
  | nil => simp [insertEntry, List.find?_singleton]
  | cons entry rest ih =>
    unfold insertEntry
    split
    · by_cases h : name = other
      · simp [h]
      · simp [h]
    · rename_i heq
      obtain rfl := LawfulEqOrd.eq_of_compare heq
      by_cases h : entry.1 = other
      · simp [h]
      · simp [h]
    · rename_i hgt
      have hne : name ≠ entry.1 := fun heq => by simp [heq] at hgt
      by_cases h : entry.1 = other
      · simp [← h, hne]
      · simp [h, ih]

/-- An inserted entry is found under its name, and nothing else changes. -/
theorem get?_insert {m : NameMap α} {name other : String} {value : α} :
    (m.insert name value).get? other = if name = other then some value else m.get? other := by
  unfold get? insert
  rw [find?_insertEntry]
  exact apply_ite ..

theorem isSome_get? {m : NameMap α} {name : String} : (m.get? name).isSome ↔ name ∈ m.names := by
  simp [get?, names]

theorem nodup_names (m : NameMap α) : m.names.Nodup := by
  exact List.pairwise_map.2 (m.ascending.imp ne_of_compare_lt)

/-- The names of a map stand in order, so that maps of the same names list them alike. -/
theorem names_eq_of_mem_iff {m : NameMap α} {n : NameMap β}
    (h : ∀ name, name ∈ m.names ↔ name ∈ n.names) : m.names = n.names := by
  have hm : Ascending id m.names := List.pairwise_map.2 m.ascending
  have hn : Ascending id n.names := List.pairwise_map.2 n.ascending
  exact hm.eq_of_mem_iff hn h

theorem get?_eq_some_of_mem {m : NameMap α} {entry : String × α} (h : entry ∈ m.entries) :
    m.get? entry.1 = some entry.2 := by
  obtain ⟨value, hvalue⟩ :=
    Option.isSome_iff_exists.1 (isSome_get?.2 (List.mem_map_of_mem (f := Prod.fst) h))
  obtain ⟨found, hfound, rfl⟩ := Option.map_eq_some_iff.1 hvalue
  have hname : found.1 = entry.1 := by simpa using List.find?_some hfound
  rw [hvalue, List.inj_on_of_nodup_map m.nodup_names (List.mem_of_find?_eq_some hfound) h hname]

end NameMap

namespace Dimensions

@[simp]
theorem mem_names_ofNames {names : List String} {value : String → Option String} {name : String} :
    name ∈ (ofNames names value).names ↔ name ∈ names := by
  simp [ofNames]

/-- A map over some names has the given values under them. -/
theorem value_ofNames {names : List String} {value : String → Option String} {name : String}
    (h : name ∈ names) : (ofNames names value).value name = value name := by
  have hfold : ∀ m : Dimensions,
      ((names.map fun name => (name, value name)).foldl
        (fun m entry => m.insert entry.1 entry.2) m).get? name =
          if name ∈ names then some (value name) else m.get? name := by
    clear h
    induction names with
    | nil => simp
    | cons first rest ih =>
      intro m
      rw [List.map_cons, List.foldl_cons, ih, NameMap.get?_insert]
      by_cases hrest : name ∈ rest
      · simp [hrest]
      · by_cases hfirst : first = name
        · simp [hfirst]
        · simp [hrest, hfirst, Ne.symm hfirst]
  unfold Dimensions.value ofNames NameMap.ofList
  rw [hfold, if_pos h]
  rfl

/-- A dimension map lists its names with their values. -/
theorem entries_eq_map (d : Dimensions) :
    d.entries = d.names.map fun name => (name, d.value name) := by
  refine (List.map_id _).symm.trans ?_
  rw [NameMap.names, List.map_map]
  refine List.map_congr_left fun entry hentry => ?_
  rw [Function.comp_apply, value, NameMap.get?_eq_some_of_mem hentry]
  rfl

theorem eq_of_value_eq {d e : Dimensions} (hnames : ∀ name, name ∈ d.names ↔ name ∈ e.names)
    (hvalues : ∀ name ∈ d.names, d.value name = e.value name) : d = e := by
  refine NameMap.entries_injective ?_
  rw [entries_eq_map, entries_eq_map, ← NameMap.names_eq_of_mem_iff hnames]
  exact List.map_congr_left fun name hname => by rw [hvalues name hname]

/-- A map over the names of another one, with the values of that one, is that one. -/
theorem ofNames_eq {d : Dimensions} {names : List String} {value : String → Option String}
    (hnames : ∀ name, name ∈ names ↔ name ∈ d.names)
    (hvalues : ∀ name ∈ names, value name = d.value name) : ofNames names value = d := by
  refine eq_of_value_eq (fun name => mem_names_ofNames.trans (hnames name)) fun name hname => ?_
  have hmem := mem_names_ofNames.1 hname
  rw [value_ofNames hmem, hvalues name hmem]

/-- A dimension map leaves some names unset: it has these names and no value. -/
structure LeavesUnset (names : List String) (d : Dimensions) : Prop where
  names : ∀ name, name ∈ d.names ↔ name ∈ names
  value : ∀ name, d.value name = none

theorem value_eq_none_of_not_mem {d : Dimensions} {name : String} (h : name ∉ d.names) :
    d.value name = none := by
  rw [value, Option.not_isSome_iff_eq_none.1 (mt NameMap.isSome_get?.1 h)]
  rfl

theorem leavesUnset_unset (names : List String) : LeavesUnset names (unset names) where
  names _ := mem_names_ofNames
  value name := by
    by_cases h : name ∈ names
    · exact value_ofNames h
    · exact value_eq_none_of_not_mem (mt mem_names_ofNames.1 h)

/-- There is one map that leaves some names unset. -/
theorem eq_unset_iff {d : Dimensions} {names : List String} :
    d = unset names ↔ LeavesUnset names d := by
  constructor
  · rintro rfl
    exact leavesUnset_unset names
  · intro h
    have hunset := leavesUnset_unset names
    exact eq_of_value_eq (fun name => (h.names name).trans (hunset.names name).symm)
      fun name _ => (h.value name).trans (hunset.value name).symm

/-- A map over some names is filled name by name. -/
theorem fill_ofNames (names : List String) (value : String → Option String) (other : Dimensions) :
    fill (ofNames names value) other =
      ofNames names fun name => (value name).or (other.value name) := by
  rw [fill, ofNames, NameMap.map_ofList, List.map_map]
  rfl

end Dimensions

end Funnel
