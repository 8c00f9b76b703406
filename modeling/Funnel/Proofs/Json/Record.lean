import Funnel.Proofs.Json.Decoder

/-!
# Reading records

While an object is read, the slots of its record are those of the end, but empty where a field has
not been found yet. This holds behind every member, so the order of the members does not matter.
-/

namespace Funnel.Json

variable {α β : Type}

/-- The ways to write a field: under one of its names with one of the texts of its value, or not at
all. -/
structure FieldForm where
  names : List String
  IsValue : Json → Prop
  MayBeAbsent : Prop

namespace FieldForm

/-- A field that is always written. -/
def required (names : List String) (IsValue : Json → Prop) : FieldForm :=
  ⟨names, IsValue, False⟩

/-- A field of one name that may be left out under a condition. -/
def optional (name : String) (IsValue : Json → Prop) (MayBeAbsent : Prop) : FieldForm :=
  ⟨[name], IsValue, MayBeAbsent⟩

/-- The members that write some fields, in the order of these. -/
inductive Writes : List FieldForm → List (String × Json) → Prop
  | nil : Writes [] []
  | present {form : FieldForm} {forms : List FieldForm} {name : String} {value : Json}
      {members : List (String × Json)} (hname : name ∈ form.names) (hvalue : form.IsValue value)
      (h : Writes forms members) : Writes (form :: forms) ((name, value) :: members)
  | absent {form : FieldForm} {forms : List FieldForm} {members : List (String × Json)}
      (habsent : form.MayBeAbsent) (h : Writes forms members) : Writes (form :: forms) members

/-- The last field is written by the last member, or left out. -/
theorem Writes.of_concat {form : FieldForm} {forms : List FieldForm}
    {members : List (String × Json)} (h : Writes (forms ++ [form]) members) :
    (∃ init name value, Writes forms init ∧ members = init ++ [(name, value)] ∧
      name ∈ form.names ∧ form.IsValue value) ∨ Writes forms members ∧ form.MayBeAbsent := by
  induction forms generalizing members with
  | nil =>
    cases h with
    | present hname hvalue h =>
      cases h
      exact .inl ⟨[], _, _, .nil, rfl, hname, hvalue⟩
    | absent habsent h =>
      cases h
      exact .inr ⟨.nil, habsent⟩
  | cons first forms ih =>
    cases h with
    | present hname hvalue h =>
      rcases ih h with ⟨init, name, value, hinit, rfl, hlast⟩ | ⟨hforms, habsent⟩
      · exact .inl ⟨_, name, value, .present hname hvalue hinit, rfl, hlast⟩
      · exact .inr ⟨.present hname hvalue hforms, habsent⟩
    | absent hfirst h =>
      rcases ih h with ⟨init, name, value, hinit, rfl, hlast⟩ | ⟨hforms, habsent⟩
      · exact .inl ⟨_, name, value, .absent hfirst hinit, rfl, hlast⟩
      · exact .inr ⟨.absent hfirst hforms, habsent⟩

end FieldForm

/-- An object of some fields, its members in any order. -/
def IsObjectOf (forms : List FieldForm) (value : Json) : Prop :=
  ∃ ordered members, FieldForm.Writes forms ordered ∧ members.Perm ordered ∧
    value = .object members

/-- The object with every field written in order. -/
theorem isObjectOf_object {forms : List FieldForm} {members : List (String × Json)}
    (h : List.Forall₂ (fun form member => member.1 ∈ form.names ∧ form.IsValue member.2)
      forms members) : IsObjectOf forms (.object members) := by
  refine ⟨members, members, ?_, .refl _, rfl⟩
  induction h with
  | nil => exact .nil
  | cons hmember _ ih => exact .present hmember.1 hmember.2 ih

theorem IsObjectOf.ne_null {forms : List FieldForm} {value : Json} (h : IsObjectOf forms value) :
    value ≠ .null := by
  obtain ⟨_, members, -, -, rfl⟩ := h
  nofun

/-- A name that a field goes by. -/
def Field.IsNamed (field : Field α) (name : String) : Prop :=
  name = field.name ∨ name ∈ field.aliases

instance (field : Field α) (name : String) : Decidable (field.IsNamed name) :=
  inferInstanceAs (Decidable (name = field.name ∨ name ∈ field.aliases))

theorem Field.isNamed_iff {field : Field α} {name : String} :
    field.IsNamed name ↔ name ∈ field.name :: field.aliases :=
  List.mem_cons.symm

namespace Record

/-- The name of the field that goes by a name. -/
def owner? : {α : Type} → Record α → String → Option String
  | _, make _, _ => none
  | _, app record field, name =>
    if field.IsNamed name then some field.name else record.owner? name

section Names

variable {record : Record (β → α)} {field : Field β} {name owner : String}

theorem mem_spellings_of_owner? {record : Record α} (h : record.owner? name = some owner) :
    owner ∈ record.spellings := by
  induction record with
  | make value => cases h
  | app record field ih =>
    rw [owner?] at h
    rw [spellings, List.mem_append]
    split at h
    · cases h
      exact .inr (List.mem_cons_self ..)
    · exact .inl (ih h)

theorem nodup_of_app (h : (record.app field).spellings.Nodup) : record.spellings.Nodup :=
  (List.nodup_append.1 h).1

theorem not_isNamed_of_mem (h : (record.app field).spellings.Nodup)
    (hname : name ∈ record.spellings) : ¬ field.IsNamed name := fun hnamed =>
  (List.nodup_append.1 h).2.2 name hname name (Field.isNamed_iff.1 hnamed) rfl

theorem owner?_of_mem (h : (record.app field).spellings.Nodup)
    (hname : name ∈ record.spellings) : (record.app field).owner? name = record.owner? name := by
  rw [owner?, if_neg (not_isNamed_of_mem h hname)]

theorem owner?_of_isNamed (h : field.IsNamed name) :
    (record.app field).owner? name = some field.name := by
  rw [owner?, if_pos h]

/-- No other field goes by the name of the last one. -/
theorem owner?_ne (h : (record.app field).spellings.Nodup) : record.owner? name ≠ some field.name :=
  fun howner => not_isNamed_of_mem h (mem_spellings_of_owner? howner) (.inl rfl)

end Names

/-- The slots of a record and the value made of them, where some members are read that stand in the
order of the fields. -/
inductive Fills : {α : Type} → (record : Record α) → record.Slots → List (String × Json) → α → Prop
  | make {α : Type} {value : α} : Fills (make value) () [] value
  | present {α β : Type} {record : Record (β → α)} {field : Field β} {slots : record.Slots}
      {members : List (String × Json)} {build : β → α} {name : String} {json : Json} {value : β}
      (h : Fills record slots members build) (hname : field.IsNamed name)
      (hvalue : field.decoder.Reads json value) :
      Fills (record.app field) (slots, some value) (members ++ [(name, json)]) (build value)
  | absent {α β : Type} {record : Record (β → α)} {field : Field β} {slots : record.Slots}
      {members : List (String × Json)} {build : β → α} {value : β}
      (h : Fills record slots members build) (habsent : field.absent = some value) :
      Fills (record.app field) (slots, none) members (build value)

variable {record : Record α} {slots : record.Slots} {members : List (String × Json)} {value : α}

theorem Fills.finish_eq_ok (h : record.Fills slots members value) :
    record.finish slots = .ok value := by
  induction h with
  | make => rfl
  | present _ _ _ ih => simp [finish, ih, bind, Except.bind, pure, Except.pure]
  | absent _ habsent ih => simp [finish, ih, habsent, bind, Except.bind, pure, Except.pure]

theorem Fills.mem_spellings (h : record.Fills slots members value) {name : String} {json : Json}
    (hmem : (name, json) ∈ members) : name ∈ record.spellings := by
  induction h with
  | make => cases hmem
  | present _ hname _ ih =>
    rw [spellings, List.mem_append]
    rcases List.mem_append.1 hmem with hmem | hmem
    · exact .inl (ih hmem)
    · cases List.mem_singleton.1 hmem
      exact .inr (Field.isNamed_iff.1 hname)
  | absent _ _ ih =>
    rw [spellings, List.mem_append]
    exact .inl (ih hmem)

/-- The fields that some members belong to. -/
def owners (record : Record α) (members : List (String × Json)) : List (Option String) :=
  members.map fun member => record.owner? member.1

theorem Fills.owners_app {record : Record (β → α)} {slots : record.Slots} {build : β → α}
    {field : Field β} (h : record.Fills slots members build)
    (hnames : (record.app field).spellings.Nodup) :
    (record.app field).owners members = record.owners members :=
  List.map_congr_left fun _ hmem => owner?_of_mem hnames (h.mem_spellings hmem)

/-- No two members belong to one field. -/
theorem Fills.nodup_owners (h : record.Fills slots members value)
    (hnames : record.spellings.Nodup) : (record.owners members).Nodup := by
  induction h with
  | make => exact List.nodup_nil
  | present h hname hvalue ih =>
    rename_i record field _ members _ name json _
    have hlast : (record.app field).owners [(name, json)] = [some field.name] := by
      rw [owners, List.map_singleton, owner?_of_isNamed hname]
    have hfresh : some field.name ∉ record.owners members := fun hmem => by
      obtain ⟨member, -, howner⟩ := List.mem_map.1 hmem
      exact owner?_ne hnames howner
    rw [owners, List.map_append, ← owners, ← owners, h.owners_app hnames, hlast]
    exact List.nodup_append.2 ⟨ih (nodup_of_app hnames), List.pairwise_singleton _ _,
      fun owner howner last hlast heq =>
        hfresh (List.mem_singleton.1 hlast ▸ heq ▸ howner)⟩
  | absent h _ ih =>
    rw [h.owners_app hnames]
    exact ih (nodup_of_app hnames)

/-- The slots of the fields found so far, as they are in the end. -/
def restrict : {α : Type} → (record : Record α) → record.Slots → List (Option String) →
    record.Slots
  | _, make _, _, _ => ()
  | _, app (β := β) record field, slots, found =>
    let (slots, slot) : record.Slots × Option β := slots
    (record.restrict slots found, if some field.name ∈ found then slot else none)

theorem restrict_nil (slots : record.Slots) : record.restrict slots [] = record.noSlots := by
  induction record with
  | make value => rfl
  | app record field ih =>
    obtain ⟨slots, slot⟩ := slots
    simp only [restrict, ih]
    rfl

theorem restrict_congr {found found' : List (Option String)}
    (h : ∀ owner, owner ∈ found ↔ owner ∈ found') :
    record.restrict slots found = record.restrict slots found' := by
  induction record with
  | make value => rfl
  | app record field ih => simp only [restrict, h, ih]

/-- With all members read the slots are filled. -/
theorem Fills.restrict_eq (h : record.Fills slots members value) (hnames : record.spellings.Nodup)
    {found : List (Option String)} (hfound : ∀ owner ∈ record.owners members, owner ∈ found) :
    record.restrict slots found = slots := by
  induction h with
  | make => rfl
  | present h hname hvalue ih =>
    rename_i record field _ members _ name json _
    have hinner : ∀ owner ∈ record.owners members, owner ∈ found := fun owner howner =>
      hfound owner (by
        rw [owners, List.map_append, ← owners, h.owners_app hnames]
        exact List.mem_append_left _ howner)
    have howner : (record.app field).owner? name = some field.name := owner?_of_isNamed hname
    have hlast : some field.name ∈ found := hfound _ (by
      rw [owners, List.map_append, ← howner]
      exact List.mem_append_right _ (List.mem_singleton_self _))
    rw [restrict, ih (nodup_of_app hnames) hinner, if_pos hlast]
  | absent h _ ih =>
    rw [h.owners_app hnames] at hfound
    rw [restrict, ih (nodup_of_app hnames) hfound, ite_self]

theorem restrict_cons {owner : String} {found : List (Option String)}
    (h : owner ∉ record.spellings) :
    record.restrict slots (some owner :: found) = record.restrict slots found := by
  induction record with
  | make value => rfl
  | app record field ih =>
    obtain ⟨slots, slot⟩ := slots
    rw [spellings, List.mem_append, not_or, List.mem_cons, not_or] at h
    have hne : some field.name ≠ some owner := fun heq => h.2.1 (Option.some.inj heq).symm
    simp only [restrict, ih h.1, List.mem_cons, hne, false_or]
    rfl

/-- A member is read into the slots that are found so far. -/
def Admits (record : Record α) (slots : record.Slots) (found : List (Option String))
    (name : String) (json : Json) : Prop :=
  ∃ decoder, record.slot? (record.restrict slots found) name = some (.ok decoder) ∧
    decoder.Reads json (record.restrict slots (record.owner? name :: found))

section Admits

variable {record : Record (β → α)} {field : Field β} {slots : record.Slots}
  {found : List (Option String)} {name : String} {json : Json}

/-- The last field takes its own members. -/
theorem admits_of_isNamed (hnames : (record.app field).spellings.Nodup) (hname : field.IsNamed name)
    {value : β} (hvalue : field.decoder.Reads json value) (hfresh : some field.name ∉ found) :
    (record.app field).Admits (slots, some value) found name json := by
  have hinner : record.restrict slots (some field.name :: found) = record.restrict slots found :=
    restrict_cons fun hmem => not_isNamed_of_mem hnames hmem (.inl rfl)
  have hempty : (record.app field).restrict (slots, some value) found =
      (record.restrict slots found, none) := by
    rw [restrict, if_neg hfresh]
  refine ⟨fun cs => (field.decoder cs).map fun value => (record.restrict slots found, some value),
    hempty ▸ if_pos hname, fun tokens cs hcs hend => ?_⟩
  rw [owner?_of_isNamed hname, restrict, hinner, if_pos (List.mem_cons_self ..)]
  exact congrArg _ (hvalue hcs hend)

/-- It leaves those of the fields before it to them. -/
theorem Admits.app (h : record.Admits slots found name json)
    (hnames : (record.app field).spellings.Nodup) (hname : name ∈ record.spellings)
    (slot : Option β) : (record.app field).Admits (slots, slot) found name json := by
  obtain ⟨decoder, hslot, hreads⟩ := h
  have hne : some field.name ≠ record.owner? name := (owner?_ne hnames).symm
  refine ⟨fun cs => (decoder cs).map fun slots =>
    (slots, if some field.name ∈ found then slot else none), ?_, fun tokens cs hcs hend => ?_⟩
  · refine (if_neg (not_isNamed_of_mem hnames hname)).trans ?_
    rw [hslot]
    rfl
  · rw [owner?_of_mem hnames hname, restrict]
    simp only [List.mem_cons, hne, false_or]
    exact congrArg _ (hreads hcs hend)

end Admits

/-- The members are read in any order, as long as each is the first of its field. -/
theorem Fills.admits (h : record.Fills slots members value) (hnames : record.spellings.Nodup)
    {found : List (Option String)} {name : String} {json : Json} (hmem : (name, json) ∈ members)
    (hfresh : record.owner? name ∉ found) : record.Admits slots found name json := by
  induction h with
  | make => cases hmem
  | present h hname hvalue ih =>
    rcases List.mem_append.1 hmem with hmem | hmem
    · have hinner := h.mem_spellings hmem
      rw [owner?_of_mem hnames hinner] at hfresh
      exact (ih (nodup_of_app hnames) hmem hfresh).app hnames hinner _
    · cases List.mem_singleton.1 hmem
      rw [owner?_of_isNamed hname] at hfresh
      exact admits_of_isNamed hnames hname hvalue hfresh
  | absent h _ ih =>
    have hinner := h.mem_spellings hmem
    rw [owner?_of_mem hnames hinner] at hfresh
    exact (ih (nodup_of_app hnames) hmem hfresh).app hnames hinner _

theorem Admits.exists_member {found : List (Option String)} {name : String} {json : Json}
    {strict : Bool} {tokens : List Token} {cs : List Char}
    (h : record.Admits slots found name json)
    (hcs : Spells (.colon :: (json.tokens ++ tokens)) cs) (hend : EndValue tokens) :
    ∃ rest, Spells tokens rest ∧
      record.member strict (record.restrict slots found) name cs =
        .ok (record.restrict slots (record.owner? name :: found), rest) := by
  obtain ⟨decoder, hslot, hreads⟩ := h
  obtain ⟨inner, hinner, hcolon⟩ := hcs.exists_colon
  obtain ⟨rest, hrest, hrun⟩ := hreads.exists_run hinner hend
  refine ⟨rest, hrest, ?_⟩
  have hslot' : record.slot strict (record.restrict slots found) name = .ok decoder := by
    rw [slot, hslot]
  rw [member, hslot']
  simp only [hcolon, hrun]

theorem members_close {strict first : Bool} {cs rest : List Char}
    (h : nextKey first cs = .ok (.close rest)) :
    record.members strict slots first cs = .ok (slots, rest) := by
  rw [Record.members]
  split <;> simp_all

theorem members_key {strict first : Bool} {slots' : record.Slots} {name : String}
    {cs part rest : List Char} (h : nextKey first cs = .ok (.key name part))
    (hmember : record.member strict slots name part = .ok (slots', rest)) :
    record.members strict slots first cs = record.members strict slots' false rest := by
  conv_lhs => rw [Record.members]
  split <;> simp_all
  split <;> simp_all

/-- The members of an object are read into the slots up to the end of the object. -/
theorem Fills.exists_members (h : record.Fills slots members value)
    (hnames : record.spellings.Nodup) (strict first : Bool) {todo : List (String × Json)}
    {found : List (Option String)} {tokens : List Token} {cs : List Char} (hne : todo ≠ [])
    (hmem : ∀ member ∈ todo, member ∈ members) (hnodup : (record.owners todo ++ found).Nodup)
    (hcs : Spells (lead first ++ ([.comma].intercalate (memberTokens todo) ++ .objectEnd :: tokens))
      cs) :
    ∃ rest, Spells tokens rest ∧
      record.members strict (record.restrict slots found) first cs =
        .ok (record.restrict slots (record.owners todo ++ found), rest) := by
  -- a comma stands in front of every member but the first, and the last one is followed by the end
  induction todo generalizing found first cs with
  | nil => exact absurd rfl hne
  | cons member todo ih =>
    obtain ⟨name, json⟩ := member
    have hperm : (record.owners todo ++ record.owner? name :: found).Perm
        (record.owners ((name, json) :: todo) ++ found) := List.perm_middle
    have hfresh : record.owner? name ∉ found := fun hfound =>
      (List.nodup_cons.1 hnodup).1 (List.mem_append_right _ hfound)
    have hadmits := h.admits hnames (hmem _ (List.mem_cons_self ..)) hfresh
    cases todo with
    | nil =>
      rw [memberTokens, memberTokens, List.intercalate_singleton] at hcs
      obtain ⟨part, hpart, hkey⟩ := exists_nextKey hcs
      obtain ⟨rest, hrest, hmember⟩ := hadmits.exists_member hpart (endValue_cons (by simp))
      obtain ⟨after, hafter, hclose⟩ := nextKey_objectEnd false hrest
      exact ⟨after, hafter, (members_key hkey hmember).trans (members_close hclose)⟩
    | cons next todo =>
      rw [memberTokens, memberTokens, intercalate_comma_append] at hcs
      obtain ⟨part, hpart, hkey⟩ := exists_nextKey hcs
      obtain ⟨rest, hrest, hmember⟩ := hadmits.exists_member hpart (endValue_cons (by simp))
      obtain ⟨after, hafter, hothers⟩ := ih false (by simp)
        (fun other hother => hmem other (List.mem_cons_of_mem _ hother))
        (hperm.nodup_iff.2 hnodup) hrest
      refine ⟨after, hafter, (members_key hkey hmember).trans (hothers.trans ?_)⟩
      rw [restrict_congr fun owner => hperm.mem_iff]

/-- Whatever the order of its members, an object is read as the value that they make. -/
theorem Fills.reads_decode (h : record.Fills slots members value)
    (hnames : record.spellings.Nodup) {members' : List (String × Json)}
    (hperm : members'.Perm members) (name : String) (strict : Bool) :
    (record.decode name strict).Reads (.object members') value := by
  intro tokens cs hcs _
  rw [tokens_object_append] at hcs
  obtain ⟨inner, hinner, heq⟩ := hcs.exists_mark '{' trivial rfl
  -- what is found does not depend on the order of the members
  have howners : (record.owners members').Perm (record.owners members) := hperm.map _
  have hmembers : ∃ rest, record.members strict record.noSlots true inner = .ok (slots, rest) := by
    cases members' with
    | nil =>
      cases hperm.nil_eq
      obtain ⟨rest, -, hclose⟩ := nextKey_objectEnd true hinner
      refine ⟨rest, (members_close hclose).trans ?_⟩
      rw [← restrict_nil slots, h.restrict_eq hnames nofun]
    | cons member members' =>
      have hnodup : (record.owners (member :: members') ++ []).Nodup := by
        rw [List.append_nil]
        exact howners.nodup_iff.2 (h.nodup_owners hnames)
      obtain ⟨rest, -, hread⟩ := h.exists_members hnames strict true (by simp)
        (fun _ => hperm.mem_iff.1) hnodup hinner
      refine ⟨rest, ?_⟩
      rw [restrict_nil] at hread
      rw [hread, h.restrict_eq hnames fun owner howner => ?_]
      rw [List.append_nil]
      exact howners.mem_iff.2 howner
  obtain ⟨rest, hread⟩ := hmembers
  simp only [decode, heq, hread, bind, Except.bind, h.finish_eq_ok]
  rfl

/-- Each field of a record reads every form of its part of a value. -/
inductive Takes : {α : Type} → Record α → List FieldForm → α → Prop
  | make {α : Type} {value : α} : Takes (make value) [] value
  | app {α β : Type} {record : Record (β → α)} {field : Field β} {forms : List FieldForm}
      {form : FieldForm} {build : β → α} {value : β} (h : Takes record forms build)
      (hnames : ∀ name ∈ form.names, field.IsNamed name)
      (hvalues : ∀ json, form.IsValue json → field.decoder.Reads json value)
      (habsent : form.MayBeAbsent → field.absent = some value) :
      Takes (record.app field) (forms ++ [form]) (build value)

theorem Takes.exists_fills {forms : List FieldForm} (h : record.Takes forms value)
    (hmembers : FieldForm.Writes forms members) : ∃ slots, record.Fills slots members value := by
  induction h generalizing members with
  | make =>
    cases hmembers
    exact ⟨_, .make⟩
  | app _ hnames hvalues habsent ih =>
    rcases hmembers.of_concat with ⟨init, name, json, hinit, rfl, hname, hjson⟩ | ⟨hinit, hmay⟩
    · obtain ⟨slots, hslots⟩ := ih hinit
      exact ⟨_, .present hslots (hnames name hname) (hvalues json hjson)⟩
    · obtain ⟨slots, hslots⟩ := ih hinit
      exact ⟨_, .absent hslots (habsent hmay)⟩

theorem Takes.required {record : Record (β → α)} {forms : List FieldForm} {build : β → α}
    (h : record.Takes forms build) {name : String} {aliases : List String} {decoder : Decoder β}
    {IsValue : Json → Prop} {value : β}
    (hvalues : ∀ json, IsValue json → decoder.Reads json value) :
    (record.required name decoder aliases).Takes
      (forms ++ [.required (name :: aliases) IsValue]) (build value) :=
  h.app (fun _ => List.mem_cons.1) hvalues False.elim

theorem Takes.optional {record : Record (β → α)} {forms : List FieldForm} {build : β → α}
    (h : record.Takes forms build) {name : String} {decoder : Decoder β} {absent : β}
    {IsValue : Json → Prop} {value : β}
    (hvalues : ∀ json, IsValue json → decoder.Reads json value) :
    (record.optional name decoder absent).Takes
      (forms ++ [.optional name IsValue (value = absent)]) (build value) :=
  h.app (fun _ hname => .inl (List.mem_singleton.1 hname)) hvalues fun heq => heq ▸ rfl

/-- A record reads all objects of its fields as the value that these are parts of. -/
theorem Takes.reads_decode {forms : List FieldForm} (h : record.Takes forms value)
    (hnames : record.spellings.Nodup) {json : Json} (hjson : IsObjectOf forms json) (name : String)
    (strict : Bool) : (record.decode name strict).Reads json value := by
  obtain ⟨ordered, members, hordered, hperm, rfl⟩ := hjson
  obtain ⟨slots, hfills⟩ := h.exists_fills hordered
  exact hfills.reads_decode hnames hperm name strict

end Record

theorem endText_eq_ok {cs : List Char} (h : Spells [] cs) : endText cs = .ok () := by
  cases h with
  | nil hspace => rw [endText, skipSpace_eq_nil hspace]

theorem Decoder.Reads.ofText_eq_ok {decoder : Decoder α} {json : Json} {value : α}
    (h : decoder.Reads json value) {s : String} (hs : json.IsTextOf s) :
    decoder.ofText s = .ok value := by
  rw [IsTextOf, ← List.append_nil json.tokens] at hs
  obtain ⟨rest, hrest, hrun⟩ := h.exists_run hs nofun
  simp only [ofText, hrun, bind, Except.bind, endText_eq_ok hrest]
  rfl

end Funnel.Json
