import Funnel.Grouping

namespace Funnel

open Std

/-- A finite map from names, as its entries in ascending order. -/
structure NameMap (α : Type) where
  entries : List (String × α)
  ascending : entries.Pairwise fun a b => compare a.1 b.1 = .lt
deriving DecidableEq

namespace NameMap

variable {α β : Type}

/-- Puts an entry in its place, over one of the same name. -/
def insertEntry (name : String) (value : α) : List (String × α) → List (String × α)
  | [] => [(name, value)]
  | entry :: rest =>
    match compare name entry.1 with
    | .lt => (name, value) :: entry :: rest
    | .eq => (name, value) :: rest
    | .gt => entry :: insertEntry name value rest

theorem mem_of_mem_insertEntry {name : String} {value : α} {entries : List (String × α)}
    {e : String × α} (h : e ∈ insertEntry name value entries) :
    e = (name, value) ∨ e ∈ entries := by
  induction entries with
  | nil => simpa [insertEntry] using h
  | cons entry rest ih =>
    unfold insertEntry at h
    split at h
    · simpa using h
    · rcases List.mem_cons.1 h with rfl | hrest
      · exact .inl rfl
      · exact .inr (List.mem_cons_of_mem _ hrest)
    · rcases List.mem_cons.1 h with rfl | hrest
      · exact .inr (List.mem_cons_self ..)
      · exact (ih hrest).imp_right (List.mem_cons_of_mem _)

theorem pairwise_insertEntry {name : String} {value : α} {entries : List (String × α)}
    (h : entries.Pairwise fun a b => compare a.1 b.1 = .lt) :
    (insertEntry name value entries).Pairwise fun a b => compare a.1 b.1 = .lt := by
  induction entries with
  | nil => simp [insertEntry]
  | cons entry rest ih =>
    obtain ⟨hentry, hrest⟩ := List.pairwise_cons.1 h
    unfold insertEntry
    split
    · rename_i hlt
      refine List.pairwise_cons.2 ⟨fun b hb => ?_, h⟩
      rcases List.mem_cons.1 hb with rfl | hb
      · exact hlt
      · exact TransCmp.lt_trans hlt (hentry b hb)
    · rename_i heq
      obtain rfl := LawfulEqOrd.eq_of_compare heq
      exact List.pairwise_cons.2 ⟨hentry, hrest⟩
    · rename_i hgt
      refine List.pairwise_cons.2 ⟨fun b hb => ?_, ih hrest⟩
      rcases mem_of_mem_insertEntry hb with rfl | hb
      · exact OrientedCmp.lt_of_gt hgt
      · exact hentry b hb

def empty : NameMap α := ⟨[], .nil⟩

/-- A map with one entry more, or with another value under a name it has. -/
def insert (m : NameMap α) (name : String) (value : α) : NameMap α :=
  ⟨insertEntry name value m.entries, pairwise_insertEntry m.ascending⟩

/-- The map of a list of entries, the last of a name winning. -/
def ofList (entries : List (String × α)) : NameMap α :=
  entries.foldl (fun m entry => m.insert entry.1 entry.2) empty

def get? (m : NameMap α) (name : String) : Option α :=
  (m.entries.find? fun entry => entry.1 == name).map Prod.snd

def names (m : NameMap α) : List String :=
  m.entries.map Prod.fst

/-- The map of the same names with new values. -/
def map (f : String → α → β) (m : NameMap α) : NameMap β where
  entries := m.entries.map fun entry => (entry.1, f entry.1 entry.2)
  ascending := List.pairwise_map.2 m.ascending

def isEmpty (m : NameMap α) : Bool :=
  m.entries.isEmpty

theorem entries_injective {m n : NameMap α} (h : m.entries = n.entries) : m = n := by
  cases m
  cases n
  simp_all

instance [Ord α] : Ord (NameMap α) := ⟨compareOn entries⟩

instance [Ord α] [TransOrd α] : TransOrd (NameMap α) :=
  inferInstanceAs (TransCmp (compareOn (β := List (String × α)) entries))

instance [Ord α] [ReflOrd α] : ReflOrd (NameMap α) :=
  inferInstanceAs (ReflCmp (compareOn (β := List (String × α)) entries))

instance [Ord α] [LawfulEqOrd α] : LawfulEqOrd (NameMap α) where
  eq_of_compare h := entries_injective (LawfulEqOrd.eq_of_compare (α := List (String × α)) h)

end NameMap

end Funnel
