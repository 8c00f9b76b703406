import Funnel.Json.Skip

/-!
# Decoding JSON texts

A decoder turns the value that comes next in a text into a value of another type. It only gives the
value: where that ends does not depend on what is made of it and is found by `skip`, so every loop
leaves a shorter text whatever the decoder does.
-/

namespace Funnel.Json

/-- A way to get a value out of the JSON value that comes next in a text. -/
abbrev Decoder (α : Type) := List Char → Except Flaw α

namespace Decoder

variable {α β : Type}

def run (decoder : Decoder α) (cs : List Char) : Except Flaw (α × List Char) :=
  match decoder cs with
  | .error flaw => .error flaw
  | .ok value => (skip cs).map fun rest => (value, rest)

theorem length_of_run {decoder : Decoder α} {cs rest : List Char} {value : α}
    (h : decoder.run cs = .ok (value, rest)) : rest.length < cs.length := by
  unfold run at h
  split at h
  · cases h
  · cases hskip : skip cs with
    | error _ => rw [hskip] at h; cases h
    | ok _ =>
      rw [hskip] at h
      cases h
      exact length_of_skip hskip

/-- A scalar that can be used, of an expected type. -/
def scalarOf (expected : String) (use : Json → Option (Except ShapeError α)) : Decoder α :=
  fun cs =>
    match scalar (skipSpace cs) with
    | .error _ => .error (mismatch expected cs)
    | .ok (value, rest) =>
      match use value with
      | none => .error (mismatch expected cs)
      | some result => result.mapError (·.before rest)

def text : Decoder String :=
  scalarOf "a string" fun
    | .string s => some (.ok s)
    | _ => none

def bool : Decoder Bool :=
  scalarOf "a boolean" fun
    | .bool b => some (.ok b)
    | _ => none

def null : Decoder Unit :=
  scalarOf "unit" fun
    | .null => some (.ok ())
    | _ => none

def integer (expected : String) (accepts : Int → Bool) : Decoder Int :=
  scalarOf expected fun
    | .integer n => some (if accepts n then .ok n else .error (.outOfRange n expected))
    | _ => none

def uint32 : Decoder UInt32 := fun cs =>
  (integer "u32" (fun n => 0 ≤ n && n < UInt32.size) cs).map fun n => UInt32.ofNat n.toNat

def int64 : Decoder Int64 := fun cs =>
  (integer "i64" (fun n => Int64.minValue.toInt ≤ n && n ≤ Int64.maxValue.toInt) cs).map
    Int64.ofInt

def nullable (decoder : Decoder α) : Decoder (Option α) := fun cs =>
  match skipSpace cs with
  | 'n' :: rest => (word "ull".toList rest).map fun _ => none
  | other => (decoder other).map some

/-- The items of an array up to its closing bracket. -/
def items (decoder : Decoder α) (first : Bool) (cs : List Char) : Except Flaw (List α) :=
  match _hnext : nextItem first cs with
  | .error flaw => .error flaw
  | .ok (.close _) => .ok []
  | .ok (.item part) =>
    match _hrun : decoder.run part with
    | .error flaw => .error flaw
    | .ok (value, rest) => (items decoder false rest).map (value :: ·)
termination_by cs.length
decreasing_by
  have h1 := length_of_nextItem_item _hnext
  have h2 := length_of_run _hrun
  omega

def list (decoder : Decoder α) : Decoder (List α) := fun cs =>
  match skipSpace cs with
  | '[' :: rest => items decoder true rest
  | other => .error (mismatch "a sequence" other)

/-- The name that comes next behind its opening quote, what it stands for among some names, and
what follows it. -/
def chosen (choices : List (String × α)) (cs : List Char) : Except Flaw (α × List Char) := do
  let (s, rest) ← Json.text cs
  let name := String.ofList s
  match choices.lookup name with
  | some value => return (value, rest)
  | none => throw ((ShapeError.unknownVariant name (choices.map Prod.fst)).before rest)

/-- A choice between names: the name, or an object with null under the name. -/
def choice (choices : List (String × α)) : Decoder α := fun cs => do
  match skipSpace cs with
  | [] => throw (Fault.endInValue.before [])
  | '"' :: rest => return (← chosen choices rest).1
  | '{' :: rest =>
    match skipSpace rest with
    | [] => throw (Fault.endInObject.before [])
    | '"' :: rest =>
      let (value, rest) ← chosen choices rest
      let ((), rest) ← null.run (← colon rest)
      match skipSpace rest with
      | [] => throw (Fault.endInObject.before [])
      | '}' :: _ => return value
      | other => throw (Fault.noValue.before other)
    | other => throw (Fault.noKey.upon other)
  | other => throw (Fault.noValue.upon other)

end Decoder

/-- A field: its name, other names it may go by, the decoder of its value, and its value where it
is absent, unless it is required. -/
structure Field (α : Type) where
  name : String
  aliases : List String := []
  decoder : Decoder α
  absent : Option α := none

/-- The fields of a structure in order of declaration, and how it is made of their values. -/
inductive Record : Type → Type 1
  | make {α : Type} (value : α) : Record α
  | app {α β : Type} (record : Record (β → α)) (field : Field β) : Record α

namespace Record

variable {α β : Type}

/-- A record with one field more, which has to be there. -/
def required (record : Record (β → α)) (name : String) (decoder : Decoder β)
    (aliases : List String := []) : Record α :=
  record.app { name, decoder, aliases }

/-- A record with one field more, which may be absent and then has a certain value. -/
def optional (record : Record (β → α)) (name : String) (decoder : Decoder β) (absent : β) :
    Record α :=
  record.app { name, decoder, absent := some absent }

def names : {α : Type} → Record α → List String
  | _, make _ => []
  | _, app record field => record.names ++ [field.name]

/-- The names of the fields, each followed by its other names. -/
def spellings : {α : Type} → Record α → List String
  | _, make _ => []
  | _, app record field => record.spellings ++ field.name :: field.aliases

/-- The values of the fields as far as they are known. -/
def Slots : {α : Type} → Record α → Type
  | _, make _ => Unit
  | _, app (β := β) record _ => record.Slots × Option β

def noSlots : {α : Type} → (record : Record α) → record.Slots
  | _, make _ => ()
  | _, app record _ => (record.noSlots, none)

/-- How a member of some name gets into its slot, unless that is taken; `none` if no field has that
name. -/
def slot? : {α : Type} → (record : Record α) → record.Slots → String →
    Option (Except ShapeError (Decoder record.Slots))
  | _, make _, _, _ => none
  | _, app (β := β) record field, slots, name =>
    let (slots, slot) : record.Slots × Option β := slots
    if name = field.name ∨ name ∈ field.aliases then
      some <| match slot with
        | some _ => .error (.duplicateField field.name)
        | none => .ok fun cs => (field.decoder cs).map fun value => (slots, some value)
    else (record.slot? slots name).map fun result => result.map fun decoder cs =>
      (decoder cs).map fun slots => (slots, slot)

/-- How a member of some name is put into the slots. Members of other names are passed over, or in a
strict record errors. -/
def slot (record : Record α) (strict : Bool) (slots : record.Slots) (name : String) :
    Except ShapeError (Decoder record.Slots) :=
  match record.slot? slots name with
  | some result => result
  | none =>
    if strict then .error (.unknownField name record.spellings) else .ok fun _ => .ok slots

/-- What is left when an object is given up behind a key: a bracket that closes it is gone. -/
def givenUp (cs : List Char) : List Char :=
  match skipSpace cs with
  | '}' :: rest => rest
  | other => other

/-- The slots with the member whose key has just been read, and what follows the member. -/
def member (record : Record α) (strict : Bool) (slots : record.Slots) (name : String)
    (cs : List Char) : Except Flaw (record.Slots × List Char) :=
  match record.slot strict slots name with
  | .error error => .error (error.before (givenUp cs))
  | .ok decoder =>
    match colon cs with
    | .error flaw => .error flaw
    | .ok rest => decoder.run rest

theorem length_of_member {record : Record α} {strict : Bool} {slots result : record.Slots}
    {name : String} {cs rest : List Char}
    (h : record.member strict slots name cs = .ok (result, rest)) : rest.length < cs.length := by
  unfold member at h
  split at h
  · cases h
  · split at h
    · cases h
    · rename_i hcolon
      exact Nat.lt_trans (Decoder.length_of_run h) (length_of_colon hcolon)

/-- The slots with the members of an object up to its closing bracket, and what follows that. -/
def members (record : Record α) (strict : Bool) (slots : record.Slots) (first : Bool)
    (cs : List Char) : Except Flaw (record.Slots × List Char) :=
  match _hnext : nextKey first cs with
  | .error flaw => .error flaw
  | .ok (.close rest) => .ok (slots, rest)
  | .ok (.key name rest) =>
    match _hmember : record.member strict slots name rest with
    | .error flaw => .error flaw
    | .ok (slots, rest) => record.members strict slots false rest
termination_by cs.length
decreasing_by
  exact Nat.lt_trans (length_of_member _hmember) (length_of_nextKey_key _hnext)

/-- The structure made of the values in the slots. -/
def finish : {α : Type} → (record : Record α) → record.Slots → Except ShapeError α
  | _, make value, _ => .ok value
  | _, app (β := β) record field, slots => do
    let (slots, slot) : record.Slots × Option β := slots
    let build ← record.finish slots
    match slot.or field.absent with
    | some value => return build value
    | none => throw (.missingField field.name)

/-- The structure made of the items of an array, one for each field; whether there was none, and
what follows the last one. Items may be missing at the end if their fields have values without
them. -/
def ofItems (tooShort : Nat → ShapeError) :
    {α : Type} → Record α → List Char → Except Flaw (α × Bool × List Char)
  | _, make value, cs => .ok (value, true, cs)
  | _, app record field, cs => do
    let (build, first, cs) ← record.ofItems tooShort cs
    match ← nextItem first cs with
    | .item part =>
      let (value, rest) ← field.decoder.run part
      return (build value, false, rest)
    | .close rest =>
      match field.absent with
      | some value => return (build value, first, cs)
      | none => throw ((tooShort record.names.length).before rest)

/-- A structure of some name: an object of its fields, or an array of them in order. -/
def decode (record : Record α) (name : String) (strict : Bool) : Decoder α := fun cs => do
  match skipSpace cs with
  | '{' :: rest =>
    let (slots, rest) ← record.members strict record.noSlots true rest
    (record.finish slots).mapError (·.before rest)
  | '[' :: rest =>
    let tooShort length := ShapeError.wrongLength length name record.names.length
    let (value, _, rest) ← record.ofItems tooShort rest
    let _ ← endItems rest
    return value
  | other => throw (mismatch ("struct " ++ name) other)

end Record

def Decoder.ofText {α : Type} (decoder : Decoder α) (s : String) : Except ReadError α :=
  Except.mapError (Flaw.located s.toList) do
    let (value, rest) ← decoder.run s.toList
    endText rest
    return value

end Funnel.Json
