import Funnel.Proofs.Store.Record

/-!
# Dimension maps kept in JSON

Published metrics take the names that they find in an object, properties those that they are given.
Both readers give a dimension map back that was stored as an object of texts and nulls.
-/

namespace Funnel.Dimensions

/-- A map is given back by its stored form, however that is read. -/
structure IsKept (d : Dimensions) : Prop where
  /-- As properties, whatever the order in which its names are asked for; -/
  ofProperties : ∀ names : List String, (∀ name, name ∈ names ↔ name ∈ d.names) →
    ofProperties (some d.toJson) names = d
  /-- and as the dimensions of a published metric. -/
  ofJson : ofJson d.toJson = .ok d

/-- A map is what some properties, or none, say of some names. -/
structure IsReading (properties : Option Json) (names : List String) (d : Dimensions) : Prop where
  /-- It has these names and no others. -/
  mem_names : ∀ name, name ∈ d.names ↔ name ∈ names
  /-- Under each of them it has the text that the last member of that name stands for, if any. -/
  value : ∀ name ∈ names, d.value name = (properties.bind (Json.get? name)).bind valueOfProperty
  /-- Whatever else says the same of these names reads as the same map; -/
  others : ∀ other : Option Json,
    (∀ name ∈ names, other.bind (Json.get? name) = properties.bind (Json.get? name)) →
      Dimensions.ofProperties other names = d
  /-- so does an object with the same members of these names, and any others before, between and
  behind them. -/
  members : ∀ members other : List (String × Json), properties = some (.object members) →
    (other.filter fun member => member.1 ∈ names) =
        (members.filter fun member => member.1 ∈ names) →
      Dimensions.ofProperties (some (.object other)) names = d
  /-- Stored and read for these names again, it stays what it is, -/
  stored : Dimensions.ofProperties (some d.toJson) names = d
  /-- and it has nothing that restricting it to these names would change. -/
  restricted : d.restrict names = d

variable {d : Dimensions} {names : List String} {name : String}

theorem valueOfProperty_textOrNull (value : Option String) :
    valueOfProperty (Json.textOrNull value) = value := by
  cases value <;> rfl

/-- A name has one member in the stored form of a map. -/
theorem get?_toJson (h : name ∈ d.names) :
    Json.get? name d.toJson = some (Json.textOrNull (d.value name)) := by
  have hmem : (name, d.value name) ∈ d.entries := by
    rw [entries_eq_map]
    exact List.mem_map.2 ⟨name, h, rfl⟩
  have hlast : (d.entries.map fun entry => (entry.1, Json.textOrNull entry.2)).findRev?
      (fun member => member.1 == name) = some (name, Json.textOrNull (d.value name)) := by
    refine findRev?_eq_some_of_unique (List.mem_map.2 ⟨_, hmem, rfl⟩) (beq_self_eq_true name) ?_
    rintro _ hmember hname
    obtain ⟨entry, hentry, rfl⟩ := List.mem_map.1 hmember
    rw [List.inj_on_of_nodup_map d.nodup_names hentry hmem (eq_of_beq hname)]
  exact congrArg (Option.map Prod.snd) hlast

/-- A map is read back for its names, in whatever order and how often they are given. -/
theorem ofProperties_toJson (h : ∀ name, name ∈ names ↔ name ∈ d.names) :
    ofProperties (some d.toJson) names = d := by
  refine ofNames_eq h fun name hname => ?_
  rw [Option.bind_some, get?_toJson ((h name).1 hname), Option.bind_some,
    valueOfProperty_textOrNull]

theorem isKept (d : Dimensions) : d.IsKept where
  ofProperties _ h := ofProperties_toJson h
  ofJson := ofJson_toJson d

/-- Only what properties say of the given names counts. -/
theorem ofProperties_congr {properties other : Option Json}
    (h : ∀ name ∈ names, other.bind (Json.get? name) = properties.bind (Json.get? name)) :
    ofProperties other names = ofProperties properties names :=
  congrArg NameMap.ofList (List.map_congr_left fun name hname =>
    congrArg (fun found => (name, found.bind valueOfProperty)) (h name hname))

/-- A name is looked up among the members of some names that it is one of. -/
theorem last?_filter {members : List (String × Json)} (h : name ∈ names) :
    Json.last? name (members.filter fun member => member.1 ∈ names) = Json.last? name members := by
  unfold Json.last?
  rw [List.findRev?_eq_find?_reverse, List.findRev?_eq_find?_reverse, ← List.filter_reverse,
    List.find?_filter]
  congr 2
  funext member
  by_cases heq : member.1 = name
  · simp [heq, h]
  · simp [heq]

theorem isReading_ofProperties (properties : Option Json) (names : List String) :
    IsReading properties names (ofProperties properties names) where
  mem_names _ := mem_names_ofNames
  value _ := value_ofNames
  others _ := ofProperties_congr
  members members other heq hfilter := by
    rw [heq]
    refine ofProperties_congr fun name hname => ?_
    show Json.last? name other = Json.last? name members
    rw [← last?_filter hname, hfilter, last?_filter hname]
  stored := ofProperties_toJson fun _ => mem_names_ofNames.symm
  restricted := ofNames_eq (fun _ => mem_names_ofNames.symm) fun _ _ => rfl

/-- A stored map is given back by both of its readers; and what is read of properties, whatever they
hold, stays as it is when it is stored and read again. -/
theorem isKept_and_isReading (d : Dimensions) (properties : Option Json) (names : List String) :
    d.IsKept ∧ IsReading properties names (ofProperties properties names) :=
  ⟨d.isKept, isReading_ofProperties properties names⟩

end Funnel.Dimensions
