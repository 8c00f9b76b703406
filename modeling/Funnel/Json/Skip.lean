import Funnel.Json.Punctuation

/-!
# Passing over JSON values

Who passes over a value looks at its brackets, commas and quotes only: numbers may be of any size,
escapes need not make characters, and nesting may be of any depth.
-/

namespace Funnel.Json

/-- A bracket that is not closed yet. -/
inductive Bracket
  | square
  | curly

/-- What has to come next inside of some brackets: a value, a key, or what follows a value. -/
inductive Turn
  | value
  | key
  | after

/-- What follows the outermost of some open brackets, or the value that comes next if none is
open. -/
def skipFrom (turn : Turn) (stack : List Bracket) (cs : List Char) : Except Flaw (List Char) :=
  match turn, stack with
  | .value, stack =>
    match _hcs : skipSpace cs with
    | '[' :: rest =>
      match _hrest : skipSpace rest with
      | [] => .error (Fault.endInArray.before [])
      | ']' :: after => skipFrom .after stack after
      | other => skipFrom .value (.square :: stack) other
    | '{' :: rest =>
      match _hrest : skipSpace rest with
      | [] => .error (Fault.endInObject.before [])
      | '}' :: after => skipFrom .after stack after
      | other => skipFrom .key (.curly :: stack) other
    | other =>
      match _hscalar : skipScalar other with
      | .error flaw => .error flaw
      | .ok rest => skipFrom .after stack rest
  | .key, stack =>
    match _hcs : skipSpace cs with
    | [] => .error (Fault.endInObject.before [])
    | '"' :: rest =>
      match _htext : skipText rest with
      | .error flaw => .error flaw
      | .ok rest =>
        match _hcolon : colon rest with
        | .error flaw => .error flaw
        | .ok rest => skipFrom .value stack rest
    | other => .error (Fault.noKey.upon other)
  | .after, [] => .ok cs
  | .after, .square :: stack =>
    match _hcs : skipSpace cs with
    | [] => .error (Fault.endInArray.before [])
    | ',' :: rest => skipFrom .value (.square :: stack) rest
    | ']' :: rest => skipFrom .after stack rest
    | other => .error (Fault.noItemEnd.upon other)
  | .after, .curly :: stack =>
    match _hcs : skipSpace cs with
    | [] => .error (Fault.endInObject.before [])
    | ',' :: rest => skipFrom .key (.curly :: stack) rest
    | '}' :: rest => skipFrom .after stack rest
    | other => .error (Fault.noMemberEnd.upon other)
termination_by cs.length
decreasing_by
  · have h1 := length_of_skipSpace _hcs
    have h2 := length_of_skipSpace _hrest
    omega
  · have h1 := length_of_skipSpace _hcs
    have h2 := length_skipSpace_le rest
    rw [_hrest] at h2
    omega
  · have h1 := length_of_skipSpace _hcs
    have h2 := length_of_skipSpace _hrest
    omega
  · have h1 := length_of_skipSpace _hcs
    have h2 := length_skipSpace_le rest
    rw [_hrest] at h2
    omega
  · have h1 := length_of_skipScalar _hscalar
    have h2 := length_skipSpace_le cs
    rw [_hcs] at h2
    omega
  · have h1 := length_of_skipSpace _hcs
    have h2 := length_of_skipText _htext
    have h3 := length_of_colon _hcolon
    omega
  all_goals exact length_of_skipSpace _hcs

/-- What follows the value that comes next. -/
def skip (cs : List Char) : Except Flaw (List Char) :=
  skipFrom .value [] cs

theorem length_of_skipFrom {turn : Turn} {stack : List Bracket} {cs rest : List Char}
    (h : skipFrom turn stack cs = .ok rest) :
    rest.length ≤ cs.length ∧ (turn ≠ .after → rest.length < cs.length) := by
  fun_induction skipFrom turn stack cs
  case case14 =>
    cases h
    exact ⟨Nat.le_refl _, fun hne => absurd rfl hne⟩
  case case2 hcs _ hrest ih | case5 hcs _ hrest ih =>
    have h1 := length_of_skipSpace hcs
    have h2 := length_of_skipSpace hrest
    have h3 := (ih h).1
    exact ⟨by omega, fun _ => by omega⟩
  case case3 tail hcs _ _ ih | case6 tail hcs _ _ ih =>
    have h1 := length_of_skipSpace hcs
    have h2 := length_skipSpace_le tail
    have h3 := (ih h).1
    exact ⟨by omega, fun _ => by omega⟩
  case case8 cs _ _ _ _ hscalar ih =>
    have h1 := length_of_skipScalar hscalar
    have h2 := length_skipSpace_le cs
    have h3 := (ih h).1
    exact ⟨by omega, fun _ => by omega⟩
  case case12 hcs _ htext _ hcolon ih =>
    have h1 := length_of_skipSpace hcs
    have h2 := length_of_skipText htext
    have h3 := length_of_colon hcolon
    have h4 := (ih h).1
    exact ⟨by omega, fun _ => by omega⟩
  case case16 hcs ih | case17 hcs ih | case20 hcs ih | case21 hcs ih =>
    have h1 := length_of_skipSpace hcs
    have h2 := (ih h).1
    exact ⟨by omega, fun _ => by omega⟩
  all_goals cases h

theorem length_of_skip {cs rest : List Char} (h : skip cs = .ok rest) :
    rest.length < cs.length :=
  (length_of_skipFrom h).2 nofun

end Funnel.Json
