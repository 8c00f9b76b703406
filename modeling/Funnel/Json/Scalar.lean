import Funnel.Json.Numeral

/-!
# Scalars of JSON texts

Words, numbers and strings. Who only passes over a string need not care whether its escapes make
characters.
-/

namespace Funnel.Json

def isSpace (c : Char) : Bool :=
  c = ' ' || c = '\n' || c = '\t' || c = '\r'

/-- A text without the white space it starts with. -/
def skipSpace (cs : List Char) : List Char :=
  cs.dropWhile isSpace

/-- What follows the letters of a word that have to come next. -/
def word : List Char → List Char → Except Flaw (List Char)
  | [], cs => .ok cs
  | _ :: _, [] => .error (Fault.endInValue.before [])
  | c :: expected, d :: cs =>
    if c = d then word expected cs else .error (Fault.noWord.upon (d :: cs))

/-- The character that a letter stands for after a backslash. -/
def escaped? (c : Char) : Option Char :=
  if c = '"' ∨ c = '\\' ∨ c = '/' then some c
  else if c = 'b' then some '\x08'
  else if c = 'f' then some '\x0c'
  else if c = 'n' then some '\n'
  else if c = 'r' then some '\r'
  else if c = 't' then some '\t'
  else none

def hexDigit? (c : Char) : Option Nat :=
  if c.isDigit then some (c.toNat - '0'.toNat)
  else if 'a' ≤ c ∧ c ≤ 'f' then some (c.toNat - 'a'.toNat + 10)
  else if 'A' ≤ c ∧ c ≤ 'F' then some (c.toNat - 'A'.toNat + 10)
  else none

def hexValue? (a b c d : Char) : Option Nat := do
  return ((← hexDigit? a) * 16 + (← hexDigit? b)) * 256 + (← hexDigit? c) * 16 + (← hexDigit? d)

/-- The UTF-16 unit of the four bytes that come next, and what follows them. -/
def unit (cs : List Char) : Except Flaw (Nat × List Char) :=
  match cs with
  | a :: b :: c :: d :: rest =>
    match hexValue? a b c d with
    | some n => .ok (n, rest)
    | none => .error ⟨.fault .badEscape, ⟨cs, 4⟩⟩
  | short =>
    if size short < 4 then .error (Fault.endInString.before [])
    else .error ⟨.fault .badEscape, ⟨short, 4⟩⟩

/-- A unit is the first of a surrogate pair. -/
def isHigh (n : Nat) : Bool :=
  0xD800 ≤ n && n ≤ 0xDBFF

/-- A unit is the second of a surrogate pair. -/
def isLow (n : Nat) : Bool :=
  0xDC00 ≤ n && n ≤ 0xDFFF

/-- The character of a surrogate pair. -/
def pairedChar (high low : Nat) : Char :=
  Char.ofNat ((high - 0xD800) * 0x400 + (low - 0xDC00) + 0x10000)

/-- The character of a surrogate pair whose first unit has been read. -/
def pairEnd (high : Nat) (cs : List Char) : Except Flaw (Char × List Char) :=
  match cs with
  | [] => .error (Fault.endInString.before [])
  | ['\\'] => .error (Fault.endInString.before [])
  | '\\' :: 'u' :: rest =>
    match unit rest with
    | .error flaw => .error flaw
    | .ok (low, rest) =>
      if isLow low then .ok (pairedChar high low, rest)
      else .error (Fault.unpairedSurrogate.before rest)
  | '\\' :: rest => .error (Fault.unfinishedPair.upon rest)
  | rest => .error (Fault.unfinishedPair.upon rest)

def escape (cs : List Char) : Except Flaw (Char × List Char) :=
  match cs with
  | [] => .error (Fault.endInString.before [])
  | 'u' :: rest =>
    match unit rest with
    | .error flaw => .error flaw
    | .ok (n, rest) =>
      if isLow n then .error (Fault.unpairedSurrogate.before rest)
      else if isHigh n then pairEnd n rest
      else .ok (Char.ofNat n, rest)
  | c :: rest =>
    match escaped? c with
    | some d => .ok (d, rest)
    | none => .error (Fault.badEscape.upon cs)

def skipEscape (cs : List Char) : Except Flaw (List Char) :=
  match cs with
  | [] => .error (Fault.endInString.before [])
  | 'u' :: rest => (unit rest).map Prod.snd
  | c :: rest =>
    if (escaped? c).isSome then .ok rest else .error (Fault.badEscape.upon cs)

/-- A character that cannot stand in a string as itself. -/
def isControl (c : Char) : Bool :=
  c.toNat < 32

theorem length_of_unit {cs rest : List Char} {n : Nat} (h : unit cs = .ok (n, rest)) :
    rest.length < cs.length := by
  unfold unit at h
  split at h
  · split at h
    · cases h
      simp only [List.length_cons]
      omega
    · cases h
  · split at h <;> cases h

theorem length_of_pairEnd {cs rest : List Char} {high : Nat} {c : Char}
    (h : pairEnd high cs = .ok (c, rest)) : rest.length < cs.length := by
  unfold pairEnd at h
  split at h
  · cases h
  · cases h
  · split at h
    · cases h
    · rename_i hunit
      split at h
      · simp only [Except.ok.injEq, Prod.mk.injEq] at h
        obtain ⟨_, rfl⟩ := h
        have := length_of_unit hunit
        simp only [List.length_cons]
        omega
      · cases h
  · cases h
  · cases h

theorem length_of_escape {cs rest : List Char} {c : Char} (h : escape cs = .ok (c, rest)) :
    rest.length < cs.length := by
  unfold escape at h
  split at h
  · cases h
  · split at h
    · cases h
    · rename_i hunit
      have hlt := length_of_unit hunit
      split at h
      · cases h
      · split at h
        · have := length_of_pairEnd h
          simp only [List.length_cons]
          omega
        · cases h
          simp only [List.length_cons]
          omega
  · split at h
    · cases h
      exact Nat.lt_succ_self _
    · cases h

theorem length_of_skipEscape {cs rest : List Char} (h : skipEscape cs = .ok rest) :
    rest.length < cs.length := by
  unfold skipEscape at h
  split at h
  · cases h
  · rename_i tail
    cases hunit : unit tail with
    | error _ => rw [hunit] at h; cases h
    | ok pair =>
      rw [hunit] at h
      cases h
      exact Nat.lt_succ_of_lt (length_of_unit hunit)
  · split at h
    · cases h
      exact Nat.lt_succ_self _
    · cases h

/-- The characters of a string behind its opening quote, and what follows the closing one. -/
def text (cs : List Char) : Except Flaw (List Char × List Char) :=
  match cs with
  | [] => .error (Fault.endInString.before [])
  | '"' :: rest => .ok ([], rest)
  | '\\' :: rest =>
    match _hescape : escape rest with
    | .error flaw => .error flaw
    | .ok (c, rest) =>
      match text rest with
      | .error flaw => .error flaw
      | .ok (s, rest) => .ok (c :: s, rest)
  | c :: rest =>
    if isControl c then .error (Fault.controlCharacter.upon cs)
    else
      match text rest with
      | .error flaw => .error flaw
      | .ok (s, rest) => .ok (c :: s, rest)
termination_by cs.length
decreasing_by
  · exact Nat.lt_succ_of_lt (length_of_escape _hescape)
  · exact Nat.lt_succ_self _

def skipText (cs : List Char) : Except Flaw (List Char) :=
  match cs with
  | [] => .error (Fault.endInString.before [])
  | '"' :: rest => .ok rest
  | '\\' :: rest =>
    match _hescape : skipEscape rest with
    | .error flaw => .error flaw
    | .ok rest => skipText rest
  | c :: rest =>
    if isControl c then .error (Fault.controlCharacter.before cs) else skipText rest
termination_by cs.length
decreasing_by
  · exact Nat.lt_succ_of_lt (length_of_skipEscape _hescape)
  · exact Nat.lt_succ_self _

/-- The characters of a string and what follows it are fewer than those from its beginning. -/
theorem length_of_text {cs s rest : List Char} (h : text cs = .ok (s, rest)) :
    s.length + rest.length < cs.length := by
  fun_induction text cs generalizing s with
  | case1 => cases h
  | case2 => cases h; simp
  | case3 => cases h
  | case4 => cases h
  | case5 tail c after hescape s' rest' htext ih =>
    cases h
    have h1 := length_of_escape hescape
    have h2 := ih htext
    simp only [List.length_cons]
    omega
  | case6 => cases h
  | case7 => cases h
  | case8 c tail _ _ _ s' rest' htext ih =>
    cases h
    have := ih htext
    simp only [List.length_cons]
    omega

theorem length_of_skipText {cs rest : List Char} (h : skipText cs = .ok rest) :
    rest.length < cs.length := by
  fun_induction skipText cs with
  | case1 => cases h
  | case2 => cases h; exact Nat.lt_succ_self _
  | case3 => cases h
  | case4 tail after hescape ih =>
    have h1 := length_of_skipEscape hescape
    have h2 := ih h
    simp only [List.length_cons]
    omega
  | case5 => cases h
  | case6 c tail _ _ _ ih =>
    have := ih h
    simp only [List.length_cons]
    omega

/-- A word and what it stands for, and what follows it. -/
def wordValue (expected : String) (value : Json) (cs : List Char) :
    Except Flaw (Json × List Char) :=
  (word expected.toList cs).map fun rest => (value, rest)

/-- The scalar that a text starts with, and what follows it. -/
def scalar (cs : List Char) : Except Flaw (Json × List Char) :=
  match cs with
  | [] => .error (Fault.endInValue.before [])
  | '"' :: rest => (text rest).map fun (s, rest) => (.string (String.ofList s), rest)
  | 'n' :: rest => wordValue "ull" .null rest
  | 't' :: rest => wordValue "rue" (.bool true) rest
  | 'f' :: rest => wordValue "alse" (.bool false) rest
  | c :: _ => if c = '-' ∨ c.isDigit then Numeral.read cs else .error (Fault.noValue.upon cs)

/-- What follows the scalar that a text starts with. -/
def skipScalar (cs : List Char) : Except Flaw (List Char) :=
  match cs with
  | [] => .error (Fault.endInValue.before [])
  | '"' :: rest => skipText rest
  | 'n' :: rest => word "ull".toList rest
  | 't' :: rest => word "rue".toList rest
  | 'f' :: rest => word "alse".toList rest
  | c :: _ => if c = '-' ∨ c.isDigit then Numeral.skip cs else .error (Fault.noValue.upon cs)

/-- The error of a value that is not of the expected type. It shows in front of an array or object,
and behind any other value. -/
def mismatch (expected : String) (cs : List Char) : Flaw :=
  match skipSpace cs with
  | '[' :: rest => (ShapeError.wrongType .sequence expected).before ('[' :: rest)
  | '{' :: rest => (ShapeError.wrongType .map expected).before ('{' :: rest)
  | other =>
    match scalar other with
    | .error flaw => flaw
    | .ok (value, rest) => (ShapeError.wrongType value.found expected).before rest

theorem length_skipSpace_le (cs : List Char) : (skipSpace cs).length ≤ cs.length :=
  (List.dropWhile_sublist _).length_le

theorem length_of_skipSpace {cs rest : List Char} {c : Char} (h : skipSpace cs = c :: rest) :
    rest.length < cs.length := by
  have := length_skipSpace_le cs
  rw [h, List.length_cons] at this
  omega

theorem length_of_word {expected cs rest : List Char} (h : word expected cs = .ok rest) :
    rest.length ≤ cs.length := by
  fun_induction word expected cs with
  | case1 => cases h; exact Nat.le_refl _
  | case2 => cases h
  | case3 c expected cs ih =>
    have := ih h
    simp only [List.length_cons]
    omega
  | case4 => cases h

theorem length_of_wordValue {expected : String} {value v : Json} {cs rest : List Char}
    (h : wordValue expected value cs = .ok (v, rest)) : rest.length ≤ cs.length := by
  unfold wordValue at h
  cases hword : word expected.toList cs with
  | error _ => rw [hword] at h; cases h
  | ok _ =>
    rw [hword] at h
    cases h
    exact length_of_word hword

theorem length_of_scalar {v : Json} {cs rest : List Char} (h : scalar cs = .ok (v, rest)) :
    rest.length < cs.length := by
  unfold scalar at h
  split at h
  · cases h
  · rename_i tail
    cases htext : text tail with
    | error _ => rw [htext] at h; cases h
    | ok pair =>
      rw [htext] at h
      cases h
      have := length_of_text htext
      simp only [List.length_cons]
      omega
  · exact Nat.lt_succ_of_le (length_of_wordValue h)
  · exact Nat.lt_succ_of_le (length_of_wordValue h)
  · exact Nat.lt_succ_of_le (length_of_wordValue h)
  · split at h
    · exact Numeral.length_of_read h
    · cases h

theorem length_of_skipScalar {cs rest : List Char} (h : skipScalar cs = .ok rest) :
    rest.length < cs.length := by
  unfold skipScalar at h
  split at h
  · cases h
  · exact Nat.lt_succ_of_lt (length_of_skipText h)
  · exact Nat.lt_succ_of_le (length_of_word h)
  · exact Nat.lt_succ_of_le (length_of_word h)
  · exact Nat.lt_succ_of_le (length_of_word h)
  · split at h
    · exact Numeral.length_of_skip h
    · cases h

end Funnel.Json
