import Funnel.Proofs.Entry.Attributes
import Funnel.Proofs.Entry.Records

/-!
# What attaching dimensions gives to a session

A session has the value that the first of its entries with a value for the name carries. Where none
has one it has what the record that counts for it says, and that record alone.
-/

namespace Funnel.Entry

open Std

variable {declared : List String} {selection : Selection} {records : List AttributeRecord}
  {entries : List Entry} {key : String × String} {name : String}

/-- The entries of a session carry a value for a name: of those that have one, the first has it, by
time, rank and step name, and among equals by place in the list. -/
def Carries (entries : List Entry) (key : String × String) (name value : String) : Prop :=
  ∃ (i : Nat) (entry : Entry), (ofSession key entries)[i]? = some entry ∧
    entry.dimensions.value name = some value ∧
      ∀ (j : Nat) (other : Entry), (ofSession key entries)[j]? = some other →
        (other.dimensions.value name).isSome →
          (compare ((entry.enteredAt, entry.stepRank, entry.stepName), i)
            ((other.enteredAt, other.stepRank, other.stepName), j)).isLE

/-- The value that a session has for a name. -/
inductive IsSessionValue (selection : Selection) (records : List AttributeRecord)
    (entries : List Entry) (key : String × String) (name : String) : Option String → Prop
  /-- Its entries carry one. -/
  | carried {value : String} (carries : Carries entries key name value) :
      IsSessionValue selection records entries key name (some value)
  /-- Its entries carry none, and it has what the record that counts says. -/
  | recorded {record : AttributeRecord}
      (unset : ∀ entry ∈ ofSession key entries, entry.dimensions.value name = none)
      (counts : record.CountsFor selection records key) :
      IsSessionValue selection records entries key name (record.values.value name)
  /-- Its entries carry none, and neither the session nor its user as a whole has a record. -/
  | unknown (unset : ∀ entry ∈ ofSession key entries, entry.dimensions.value name = none)
      (absent : ∀ record ∈ records, record.user = key.1 →
        record.session ≠ some key.2 ∧ record.session ≠ none) :
      IsSessionValue selection records entries key name none

/-- Entries with the dimensions of their sessions. -/
structure IsAttachment (declared : List String) (selection : Selection)
    (records : List AttributeRecord) (entries result : List Entry) : Prop where
  /-- They are the same entries in the same order, apart from their dimensions. -/
  same : result.map (fun entry => entry.withDimensions .empty) =
    entries.map fun entry => entry.withDimensions .empty
  /-- Their dimensions are the declared ones. -/
  names : ∀ entry ∈ result, ∀ name, name ∈ entry.dimensions.names ↔ name ∈ declared
  /-- For each of them an entry has the value of its session, and no other. -/
  values : ∀ entry ∈ result, ∀ name ∈ declared, ∀ value,
    IsSessionValue selection records entries entry.sessionKey name value ↔
      entry.dimensions.value name = value

/-- What the entries of a session carry is found first in order of position. -/
theorem findSome?_position_eq_some_iff {value : String} :
    ((sortOn position (ofSession key entries)).findSome? fun entry =>
        entry.dimensions.value name) = some value ↔ Carries entries key name value :=
  findSome?_sortOn_eq_some_iff

theorem isSessionValue_sessionValue (selection : Selection) (records : List AttributeRecord)
    (entries : List Entry) (key : String × String) (name : String) :
    IsSessionValue selection records entries key name
      (sessionValue selection records entries key name) := by
  unfold sessionValue
  cases hfind : (sortOn position (ofSession key entries)).findSome?
      fun entry => entry.dimensions.value name with
  | some value => exact .carried (findSome?_position_eq_some_iff.1 hfind)
  | none =>
    have hunset : ∀ entry ∈ ofSession key entries, entry.dimensions.value name = none :=
      fun entry hentry => List.findSome?_eq_none_iff.1 hfind entry (mem_sortOn.2 hentry)
    rw [Option.none_or]
    cases hlookup : AttributeRecord.lookup? selection records key with
    | none => exact .unknown hunset (AttributeRecord.lookup?_eq_none_iff.1 hlookup)
    | some record => exact .recorded hunset (AttributeRecord.lookup?_eq_some_iff.1 hlookup)

/-- The value of a session is the one that is computed. -/
theorem isSessionValue_iff {value : Option String} :
    IsSessionValue selection records entries key name value ↔
      sessionValue selection records entries key name = value := by
  have hunset : (∀ entry ∈ ofSession key entries, entry.dimensions.value name = none) →
      ((sortOn position (ofSession key entries)).findSome? fun entry =>
        entry.dimensions.value name) = none :=
    fun h => List.findSome?_eq_none_iff.2 fun entry hentry => h entry (mem_sortOn.1 hentry)
  constructor
  · intro h
    unfold sessionValue
    cases h with
    | carried carries => rw [findSome?_position_eq_some_iff.2 carries, Option.some_or]
    | recorded unset counts =>
      rw [hunset unset, AttributeRecord.lookup?_eq_some_iff.2 counts, Option.none_or,
        Option.bind_some]
    | unknown unset absent =>
      rw [hunset unset, AttributeRecord.lookup?_eq_none_iff.2 absent, Option.none_or,
        Option.bind_none]
  · rintro rfl
    exact isSessionValue_sessionValue selection records entries key name

theorem isAttachment_attach (declared : List String) (selection : Selection)
    (records : List AttributeRecord) (entries : List Entry) :
    IsAttachment declared selection records entries
      (attach declared selection records entries) where
  same := by
    rw [attach_eq, List.map_map]
    rfl
  names entry hentry name := by
    rw [dimensions_of_mem_attach hentry]
    exact mem_names_dimensionsOf
  values entry hentry name hname value := by
    rw [isSessionValue_iff, dimensions_of_mem_attach hentry, dimensionsOf_eq,
      Dimensions.value_ofNames hname]

/-- A session of entries with dimensions has its own map throughout. -/
theorem ofSession_attach (declared : List String) (selection : Selection)
    (records : List AttributeRecord) (entries : List Entry) (key : String × String) :
    ofSession key (attach declared selection records entries) =
      (ofSession key entries).map fun entry =>
        entry.withDimensions (dimensionsOf declared selection records entries key) := by
  rw [attach_eq, ofSession, List.filter_map]
  refine List.map_congr_left fun entry hentry => ?_
  have hkey : entry.sessionKey = key := (mem_ofSession.1 hentry).2
  rw [hkey]

theorem findSome?_const {α β : Type} {xs : List α} (h : xs ≠ []) (b : Option β) :
    xs.findSome? (fun _ => b) = b := by
  cases b with
  | none => exact List.findSome?_eq_none_iff.2 fun _ _ => rfl
  | some b =>
    cases xs with
    | nil => exact absurd rfl h
    | cons x xs => rfl

/-- Once its entries have their dimensions, a session carries the values that it was given. -/
theorem findSome?_attach (hname : name ∈ declared) (hsession : ofSession key entries ≠ []) :
    ((sortOn position (ofSession key (attach declared selection records entries))).findSome?
      fun entry => entry.dimensions.value name) =
        sessionValue selection records entries key name := by
  have hgiven : ∀ entry : Entry, (entry.withDimensions
      (dimensionsOf declared selection records entries key)).dimensions.value name =
        sessionValue selection records entries key name := fun entry => by
    rw [withDimensions, dimensionsOf_eq, Dimensions.value_ofNames hname]
  have hsorted : sortOn position (ofSession key entries) ≠ [] := by
    obtain ⟨entry, hentry⟩ := List.exists_mem_of_ne_nil _ hsession
    exact List.ne_nil_of_mem (mem_sortOn.2 hentry)
  have hattached : sortOn position
      (ofSession key (attach declared selection records entries)) =
        (sortOn position (ofSession key entries)).map fun entry =>
          entry.withDimensions (dimensionsOf declared selection records entries key) := by
    rw [ofSession_attach]
    exact sortOn_map (fun _ _ => rfl) _
  rw [hattached, List.findSome?_map]
  exact (congrArg (fun f => List.findSome? f _) (funext hgiven)).trans (findSome?_const hsorted _)

theorem sessionValue_attach (hname : name ∈ declared) (hsession : ofSession key entries ≠ []) :
    sessionValue selection records (attach declared selection records entries) key name =
      sessionValue selection records entries key name := by
  rw [sessionValue, findSome?_attach hname hsession, sessionValue, Option.or_assoc, Option.or_self]

theorem dimensionsOf_attach (hsession : ofSession key entries ≠ []) :
    dimensionsOf declared selection records (attach declared selection records entries) key =
      dimensionsOf declared selection records entries key := by
  rw [dimensionsOf_eq, dimensionsOf_eq, Dimensions.ofNames, Dimensions.ofNames]
  refine congrArg NameMap.ofList (List.map_congr_left fun name hname => ?_)
  rw [sessionValue_attach hname hsession]

/-- Attaching a second time changes nothing. -/
theorem attach_attach (declared : List String) (selection : Selection)
    (records : List AttributeRecord) (entries : List Entry) :
    attach declared selection records (attach declared selection records entries) =
      attach declared selection records entries := by
  have hsame : ∀ entry ∈ attach declared selection records entries,
      entry.withDimensions (dimensionsOf declared selection records
        (attach declared selection records entries) entry.sessionKey) = entry := by
    intro entry hentry
    have hsession : ofSession entry.sessionKey entries ≠ [] := by
      rw [attach_eq] at hentry
      obtain ⟨origin, horigin, rfl⟩ := List.mem_map.1 hentry
      exact List.ne_nil_of_mem (mem_ofSession.2 ⟨horigin, rfl⟩)
    rw [dimensionsOf_attach hsession, ← dimensions_of_mem_attach hentry]
    rfl
  conv_lhs => rw [attach_eq]
  exact (List.map_congr_left hsame).trans (List.map_id _)

/-- Attaching dimensions gives each session those that it has, and attaching them again changes
nothing. -/
theorem isAttachment_and_attach_attach :
    (∀ declared selection records entries, IsAttachment declared selection records entries
        (attach declared selection records entries)) ∧
      ∀ declared selection records entries,
        attach declared selection records (attach declared selection records entries) =
          attach declared selection records entries :=
  ⟨isAttachment_attach, attach_attach⟩

end Funnel.Entry
