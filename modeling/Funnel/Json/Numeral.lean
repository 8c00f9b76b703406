import Funnel.Json.Flaw

/-!
# Numerals of JSON texts

An integer of at most 64 bits is kept exactly. Any other numeral is a float: the float of a
significand of 64 bits, multiplied or divided by the float of a power of ten.
-/

namespace Funnel.Json

/-- A numeral as written. -/
structure Numeral where
  negative : Bool
  whole : List Char
  fraction : List Char
  exponent : Option (Bool × List Char)

namespace Numeral

/-- The digits a text starts with and what follows them, if there is at least one. -/
def digits (cs : List Char) : Except Flaw (List Char × List Char) :=
  if (cs.takeWhile Char.isDigit).isEmpty then
    .error (if cs.isEmpty then Fault.endInValue.before cs else Fault.badNumeral.upon cs)
  else .ok (cs.takeWhile Char.isDigit, cs.dropWhile Char.isDigit)

/-- The digits before the point: no other digit follows a leading zero. -/
def wholeDigits (cs : List Char) : Except Flaw (List Char × List Char) :=
  match digits cs with
  | .ok ('0' :: d :: ds, rest) => .error (Fault.badNumeral.upon (d :: ds ++ rest))
  | result => result

/-- The digits after the point, none without a point. -/
def fractionDigits : List Char → Except Flaw (List Char × List Char)
  | '.' :: rest => digits rest
  | cs => .ok ([], cs)

/-- Whether the exponent is negative, and its digits. -/
def signedDigits : List Char → Except Flaw ((Bool × List Char) × List Char)
  | '-' :: rest => (digits rest).map fun (ds, rest) => ((true, ds), rest)
  | '+' :: rest => (digits rest).map fun (ds, rest) => ((false, ds), rest)
  | cs => (digits cs).map fun (ds, rest) => ((false, ds), rest)

def exponentDigits : List Char → Except Flaw (Option (Bool × List Char) × List Char)
  | 'e' :: rest => (signedDigits rest).map fun (e, rest) => (some e, rest)
  | 'E' :: rest => (signedDigits rest).map fun (e, rest) => (some e, rest)
  | cs => .ok (none, cs)

/-- Whether a text starts with a minus sign, and what follows it. -/
def sign : List Char → Bool × List Char
  | '-' :: rest => (true, rest)
  | cs => (false, cs)

/-- The numeral that a text starts with, and what follows it. -/
def scan (cs : List Char) : Except Flaw (Numeral × List Char) := do
  let (whole, rest) ← wholeDigits (sign cs).2
  let (fraction, rest) ← fractionDigits rest
  let (exponent, rest) ← exponentDigits rest
  return (⟨(sign cs).1, whole, fraction, exponent⟩, rest)

def digitValue (c : Char) : Nat :=
  c.toNat - '0'.toNat

/-- Appends digits to a significand as long as it stays below `2 ^ 64`; the digits left over are
the second part. -/
def gather (significand : Nat) : List Char → Nat × List Char
  | [] => (significand, [])
  | d :: ds =>
    let next := 10 * significand + digitValue d
    if next < UInt64.size then gather next ds else (significand, d :: ds)

/-- The float nearest to a power of ten. -/
def pow10 (n : Nat) : Float :=
  Float.ofScientific 1 false n

/-- A significand times a power of ten, one rounding for each factor; `none` beyond the range of
floats. Two divisions by the greatest power leave nothing of any significand. -/
def scaled? (significand : Nat) (exponent : Int) : Option Float :=
  let x := Float.ofNat significand
  if significand = 0 then some x
  else if 308 < exponent then none
  else if 0 ≤ exponent then
    let y := x * pow10 exponent.toNat
    if y.isInf then none else some y
  else if -308 ≤ exponent then some (x / pow10 (-exponent).toNat)
  else if -616 ≤ exponent then some (x / pow10 308 / pow10 (-exponent - 308).toNat)
  else some 0

/-- The greatest exponent that is read as a number, in 31 bits; beyond it only its sign matters. -/
def greatestExponent : Nat := 2147483647

/-- The float a numeral stands for, without its sign. Digits before the point that the significand
has no room for raise the exponent, such digits after the point are dropped. -/
def magnitude? (numeral : Numeral) : Option Float :=
  let (head, surplus) := gather 0 numeral.whole
  let (significand, dropped) := gather head numeral.fraction
  let places : Int := numeral.fraction.length - dropped.length
  let shift : Int := surplus.length - places
  match numeral.exponent with
  | none => scaled? significand shift
  | some (negative, ds) =>
    let exponent := ds.foldl (fun n d => 10 * n + digitValue d) 0
    if exponent ≤ greatestExponent then
      scaled? significand (if negative then shift - exponent else shift + exponent)
    else if negative ∨ significand = 0 then some 0
    else none

/-- The number a numeral stands for; `none` beyond the range of floats. Minus zero is a float. -/
def value? (numeral : Numeral) : Option Json :=
  let n := numeral.whole.foldl (fun n d => 10 * n + digitValue d) 0
  let integral := numeral.fraction.isEmpty && numeral.exponent.isNone
  if integral && !numeral.negative && n < UInt64.size then some (.integer n)
  else if integral && numeral.negative && 0 < n && Int64.minValue.toInt ≤ -(n : Int) then
    some (.integer (-(n : Int)))
  else numeral.magnitude?.map fun x => .float (if numeral.negative then -x else x)

/-- What is left of an exponent's digits behind the one at which it grows too great. -/
def overflow? (n : Nat) : List Char → Option (List Char)
  | [] => none
  | d :: ds =>
    let next := 10 * n + digitValue d
    if greatestExponent < next then some ds else overflow? next ds

/-- The digits of a numeral that are not looked at when its exponent grows too great. -/
def unread (numeral : Numeral) : List Char :=
  (numeral.exponent.bind fun (_, ds) => overflow? 0 ds).getD []

/-- The number that a text starts with, and what follows it. -/
def read (cs : List Char) : Except Flaw (Json × List Char) :=
  match scan cs with
  | .error flaw => .error flaw
  | .ok (numeral, rest) =>
    match numeral.value? with
    | some value => .ok (value, rest)
    | none => .error (Fault.outsideRange.before (numeral.unread ++ rest))

/-- A flaw as one sees it who skips a numeral: a missing digit is never an early end. -/
def skippedFlaw (flaw : Flaw) : Flaw :=
  { flaw with cause := .fault .badNumeral }

/-- What follows the numeral that a text starts with, whatever number it stands for. -/
def skip (cs : List Char) : Except Flaw (List Char) :=
  match scan cs with
  | .error flaw => .error (skippedFlaw flaw)
  | .ok (_, rest) => .ok rest

theorem length_of_digits {cs ds rest : List Char} (h : digits cs = .ok (ds, rest)) :
    rest.length < cs.length := by
  unfold digits at h
  split at h
  · cases h
  · rename_i hne
    cases h
    have hsplit := congrArg List.length
      (List.takeWhile_append_dropWhile (p := Char.isDigit) (l := cs))
    have hpos : 0 < (cs.takeWhile Char.isDigit).length := by
      rw [List.isEmpty_iff] at hne
      exact List.length_pos_iff.2 hne
    rw [List.length_append] at hsplit
    omega

theorem length_of_wholeDigits {cs ds rest : List Char} (h : wholeDigits cs = .ok (ds, rest)) :
    rest.length < cs.length := by
  unfold wholeDigits at h
  split at h
  · cases h
  · exact length_of_digits h

theorem length_of_fractionDigits {cs ds rest : List Char}
    (h : fractionDigits cs = .ok (ds, rest)) : rest.length ≤ cs.length := by
  unfold fractionDigits at h
  split at h
  · have := length_of_digits h
    simp only [List.length_cons]
    omega
  · cases h
    exact Nat.le_refl _

theorem ok_of_map_ok {α β : Type} {x : Except Flaw (α × List Char)} {f : α → β} {b : β}
    {rest : List Char} (h : (x.map fun (a, rest) => (f a, rest)) = .ok (b, rest)) :
    ∃ a, x = .ok (a, rest) := by
  cases x with
  | error _ => cases h
  | ok pair =>
    cases h
    exact ⟨pair.1, rfl⟩

theorem length_of_signedDigits {cs rest : List Char} {e : Bool × List Char}
    (h : signedDigits cs = .ok (e, rest)) : rest.length < cs.length := by
  unfold signedDigits at h
  split at h <;> obtain ⟨ds, hds⟩ := ok_of_map_ok h
  · exact Nat.lt_succ_of_lt (length_of_digits hds)
  · exact Nat.lt_succ_of_lt (length_of_digits hds)
  · exact length_of_digits hds

theorem length_of_exponentDigits {cs rest : List Char} {e : Option (Bool × List Char)}
    (h : exponentDigits cs = .ok (e, rest)) : rest.length ≤ cs.length := by
  unfold exponentDigits at h
  split at h
  · obtain ⟨ds, hds⟩ := ok_of_map_ok h
    exact Nat.le_succ_of_le (Nat.le_of_lt (length_of_signedDigits hds))
  · obtain ⟨ds, hds⟩ := ok_of_map_ok h
    exact Nat.le_succ_of_le (Nat.le_of_lt (length_of_signedDigits hds))
  · cases h
    exact Nat.le_refl _

theorem length_sign_le (cs : List Char) : (sign cs).2.length ≤ cs.length := by
  unfold sign
  split <;> simp

theorem length_of_scan {cs rest : List Char} {numeral : Numeral}
    (h : scan cs = .ok (numeral, rest)) : rest.length < cs.length := by
  unfold scan at h
  cases hw : wholeDigits (sign cs).2 with
  | error _ => rw [hw] at h; cases h
  | ok w =>
    rw [hw] at h
    cases hf : fractionDigits w.2 with
    | error _ => simp only [bind, Except.bind, hf] at h; cases h
    | ok f =>
      cases he : exponentDigits f.2 with
      | error _ => simp only [bind, Except.bind, hf, he] at h; cases h
      | ok e =>
        simp only [bind, Except.bind, hf, he, pure, Except.pure, Except.ok.injEq,
          Prod.mk.injEq] at h
        have h1 := length_of_wholeDigits hw
        have h2 := length_of_fractionDigits hf
        have h3 := length_of_exponentDigits he
        have h4 := length_sign_le cs
        rw [← h.2]
        omega

theorem length_of_read {cs rest : List Char} {value : Json} (h : read cs = .ok (value, rest)) :
    rest.length < cs.length := by
  unfold read at h
  split at h
  · cases h
  · rename_i hscan
    split at h
    · cases h
      exact length_of_scan hscan
    · cases h

theorem length_of_skip {cs rest : List Char} (h : skip cs = .ok rest) :
    rest.length < cs.length := by
  unfold skip at h
  split at h
  · cases h
  · rename_i hscan
    cases h
    exact length_of_scan hscan

end Numeral

end Funnel.Json
