import Funnel.Json.Scalar

/-!
# Brackets, commas and colons of JSON texts

What stands between the parts of arrays and objects, and behind a whole text.
-/

namespace Funnel.Json

/-- What follows in an array, with the text that is left: in front of an item, or behind the
closing bracket. -/
inductive NextItem
  | item (rest : List Char)
  | close (rest : List Char)

/-- What follows in an array: behind its opening bracket, or behind an item. -/
def nextItem (first : Bool) (cs : List Char) : Except Flaw NextItem :=
  match skipSpace cs with
  | [] => .error (Fault.endInArray.before [])
  | ']' :: rest => .ok (.close rest)
  | c :: rest =>
    if first then .ok (.item (c :: rest))
    else if c ≠ ',' then .error (Fault.noItemEnd.upon (c :: rest))
    else
      match skipSpace rest with
      | [] => .error (Fault.endInValue.before [])
      | ']' :: after => .error (Fault.trailingComma.upon (']' :: after))
      | other => .ok (.item other)

/-- What follows an array that can have no further items. -/
def endItems (cs : List Char) : Except Flaw (List Char) :=
  match skipSpace cs with
  | [] => .error (Fault.endInArray.before [])
  | ']' :: rest => .ok rest
  | ',' :: rest =>
    match skipSpace rest with
    | ']' :: after => .error (Fault.trailingComma.upon (']' :: after))
    | other => .error (Fault.trailingText.upon other)
  | other => .error (Fault.trailingText.upon other)

/-- What follows in an object, with the text that is left behind it: a key, or the closing
bracket. -/
inductive NextKey
  | key (name : String) (rest : List Char)
  | close (rest : List Char)

/-- The key that has to come next, with its opening quote. -/
def key (cs : List Char) : Except Flaw NextKey :=
  match cs with
  | '"' :: rest => (text rest).map fun (s, rest) => .key (String.ofList s) rest
  | other => .error (Fault.noKey.upon other)

/-- What follows in an object: behind its opening bracket, or behind a member. -/
def nextKey (first : Bool) (cs : List Char) : Except Flaw NextKey :=
  match skipSpace cs with
  | [] => .error (Fault.endInObject.before [])
  | '}' :: rest => .ok (.close rest)
  | c :: rest =>
    if first then key (c :: rest)
    else if c ≠ ',' then .error (Fault.noMemberEnd.upon (c :: rest))
    else
      match skipSpace rest with
      | [] => .error (Fault.endInValue.before [])
      | '}' :: after => .error (Fault.trailingComma.upon ('}' :: after))
      | other => key other

/-- What follows an object that can have no further members. -/
def endMembers (cs : List Char) : Except Flaw (List Char) :=
  match skipSpace cs with
  | [] => .error (Fault.endInObject.before [])
  | '}' :: rest => .ok rest
  | ',' :: rest => .error (Fault.trailingComma.upon (',' :: rest))
  | other => .error (Fault.trailingText.upon other)

def colon (cs : List Char) : Except Flaw (List Char) :=
  match skipSpace cs with
  | [] => .error (Fault.endInObject.before [])
  | ':' :: rest => .ok rest
  | other => .error (Fault.noColon.upon other)

/-- There is nothing left but blanks. -/
def endText (cs : List Char) : Except Flaw Unit :=
  match skipSpace cs with
  | [] => .ok ()
  | other => .error (Fault.trailingText.upon other)

theorem length_of_nextItem_close {first : Bool} {cs rest : List Char}
    (h : nextItem first cs = .ok (.close rest)) : rest.length < cs.length := by
  unfold nextItem at h
  split at h
  · cases h
  · rename_i hcs
    cases h
    exact length_of_skipSpace hcs
  · split at h
    · cases h
    · split at h
      · cases h
      · split at h <;> cases h

theorem length_of_nextItem_item {first : Bool} {cs rest : List Char}
    (h : nextItem first cs = .ok (.item rest)) : rest.length ≤ cs.length := by
  unfold nextItem at h
  split at h
  · cases h
  · cases h
  · rename_i hcs
    have hle := length_skipSpace_le cs
    rw [hcs] at hle
    split at h
    · cases h
      exact hle
    · split at h
      · cases h
      · split at h
        · cases h
        · cases h
        · cases h
          exact Nat.le_trans (length_skipSpace_le _) (Nat.le_of_lt hle)

theorem length_of_key {cs rest : List Char} {name : String}
    (h : key cs = .ok (.key name rest)) : rest.length < cs.length := by
  unfold key at h
  split at h
  · rename_i tail
    cases htext : text tail with
    | error _ => rw [htext] at h; cases h
    | ok pair =>
      rw [htext] at h
      cases h
      have := length_of_text htext
      simp only [List.length_cons]
      omega
  · cases h

theorem key_ne_close {cs rest : List Char} : key cs ≠ .ok (.close rest) := by
  intro h
  unfold key at h
  split at h
  · rename_i tail
    cases htext : text tail with
    | error _ => rw [htext] at h; cases h
    | ok pair => rw [htext] at h; cases h
  · cases h

theorem length_of_nextKey_close {first : Bool} {cs rest : List Char}
    (h : nextKey first cs = .ok (.close rest)) : rest.length < cs.length := by
  unfold nextKey at h
  split at h
  · cases h
  · rename_i hcs
    cases h
    exact length_of_skipSpace hcs
  · split at h
    · exact absurd h key_ne_close
    · split at h
      · cases h
      · split at h
        · cases h
        · cases h
        · exact absurd h key_ne_close

theorem length_of_nextKey_key {first : Bool} {cs rest : List Char} {name : String}
    (h : nextKey first cs = .ok (.key name rest)) : rest.length < cs.length := by
  unfold nextKey at h
  split at h
  · cases h
  · cases h
  · rename_i hcs
    have hle := length_skipSpace_le cs
    rw [hcs] at hle
    split at h
    · exact Nat.lt_of_lt_of_le (length_of_key h) hle
    · split at h
      · cases h
      · split at h
        · cases h
        · cases h
        · have h1 := length_of_key h
          have h2 := Nat.le_trans (length_skipSpace_le _) (Nat.le_of_lt hle)
          exact Nat.lt_of_lt_of_le h1 h2

theorem length_of_colon {cs rest : List Char} (h : colon cs = .ok rest) :
    rest.length < cs.length := by
  unfold colon at h
  split at h
  · cases h
  · rename_i hcs
    cases h
    exact length_of_skipSpace hcs
  · cases h

theorem length_of_endMembers {cs rest : List Char} (h : endMembers cs = .ok rest) :
    rest.length < cs.length := by
  unfold endMembers at h
  split at h
  · cases h
  · rename_i hcs
    cases h
    exact length_of_skipSpace hcs
  · cases h
  · cases h

end Funnel.Json
