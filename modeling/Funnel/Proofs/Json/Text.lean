import Funnel.Json.Scalar
import Funnel.Proofs.Json.Token

namespace Funnel.Json

variable {c : Char} {part rest s : List Char}

theorem hexDigit?_digitChar : ∀ n < 16, hexDigit? n.digitChar = some n ∧
    hexDigit? n.digitChar.toUpper = some n := by
  decide

theorem IsHexDigit.hexDigit?_eq {n : Nat} (h : IsHexDigit n c) : hexDigit? c = some n := by
  obtain ⟨hn, rfl | rfl⟩ := h
  · exact (hexDigit?_digitChar n hn).1
  · exact (hexDigit?_digitChar n hn).2

/-- Four digits are read as the number they stand for. -/
theorem IsCodeUnit.unit_append {n : Nat} {digits : List Char} (h : IsCodeUnit n digits) :
    unit (digits ++ rest) = .ok (n, rest) := by
  obtain ⟨hw, hx, hy, hz⟩ := h
  rename_i a b c d w x y z
  have hvalue : hexValue? w x y z = some (((a * 16 + b) * 16 + c) * 16 + d) := by
    simp only [hexValue?, hw.hexDigit?_eq, hx.hexDigit?_eq, hy.hexDigit?_eq, hz.hexDigit?_eq]
    simp only [bind, Option.bind, pure, Option.some.injEq]
    omega
  simp only [List.cons_append, List.nil_append, unit, hvalue]

theorem escaped?_letter : ∀ entry ∈ letterEscapes,
    escaped? entry.1 = some entry.2 ∧ entry.1 ≠ 'u' := by
  decide

theorem escape_letter {letter : Char} (h : (letter, c) ∈ letterEscapes) :
    escape (letter :: rest) = .ok (c, rest) := by
  obtain ⟨hletter, hne⟩ := escaped?_letter _ h
  unfold escape
  split
  · rename_i hcs
    cases hcs
  · rename_i hcs
    cases hcs
    exact absurd rfl hne
  · rename_i hcs
    cases hcs
    rw [hletter]

theorem skipEscape_letter {letter : Char} (h : (letter, c) ∈ letterEscapes) :
    skipEscape (letter :: rest) = .ok rest := by
  obtain ⟨hletter, hne⟩ := escaped?_letter _ h
  unfold skipEscape
  split
  · rename_i hcs
    cases hcs
  · rename_i hcs
    cases hcs
    exact absurd rfl hne
  · rename_i hcs
    cases hcs
    rw [hletter]
    rfl

/-- No character is a surrogate. -/
theorem isSurrogate_toNat (c : Char) : isLow c.toNat = false ∧ isHigh c.toNat = false := by
  have hvalid : c.toNat < 0xD800 ∨ 0xDFFF < c.toNat ∧ c.toNat < 0x110000 := c.valid
  simp only [isHigh, isLow, Bool.and_eq_false_iff, decide_eq_false_iff_not]
  omega

theorem escape_unit {digits : List Char} (h : IsCodeUnit c.toNat digits) :
    escape ('u' :: (digits ++ rest)) = .ok (c, rest) := by
  obtain ⟨hlow, hhigh⟩ := isSurrogate_toNat c
  simp [escape, h.unit_append, hlow, hhigh]

theorem skipEscape_unit {n : Nat} {digits : List Char} (h : IsCodeUnit n digits) :
    skipEscape ('u' :: (digits ++ rest)) = .ok rest := by
  simp [skipEscape, h.unit_append, Except.map]

theorem escape_pair {high low : Nat} {first second : List Char} (hhigh : high < 0x400)
    (hlow : low < 0x400) (hfirst : IsCodeUnit (0xD800 + high) first)
    (hsecond : IsCodeUnit (0xDC00 + low) second)
    (hc : c.toNat = 0x10000 + high * 0x400 + low) :
    escape ('u' :: (first ++ '\\' :: 'u' :: (second ++ rest))) = .ok (c, rest) := by
  have hisLow : isLow (0xD800 + high) = false := by
    simp only [isLow, Bool.and_eq_false_iff, decide_eq_false_iff_not]
    omega
  have hisHigh : isHigh (0xD800 + high) = true := by
    simp only [isHigh, Bool.and_eq_true, decide_eq_true_eq]
    omega
  have hisPair : isLow (0xDC00 + low) = true := by
    simp only [isLow, Bool.and_eq_true, decide_eq_true_eq]
    omega
  have hpaired : pairedChar (0xD800 + high) (0xDC00 + low) = c := by
    rw [pairedChar, show (0xD800 + high - 0xD800) * 0x400 + (0xDC00 + low - 0xDC00) + 0x10000 =
      c.toNat by omega, Char.ofNat_toNat]
  simp [escape, hfirst.unit_append, hisLow, hisHigh, pairEnd, hsecond.unit_append, hisPair,
    hpaired]

theorem text_plain {cs : List Char} (hquote : c ≠ '"') (hslash : c ≠ '\\')
    (hcontrol : isControl c = false) (h : text cs = .ok (s, rest)) :
    text (c :: cs) = .ok (c :: s, rest) := by
  rw [text, hcontrol, h]
  · rfl
  · exact hquote
  · exact hslash

theorem text_escape {cs after : List Char} (hescape : escape cs = .ok (c, after))
    (h : text after = .ok (s, rest)) : text ('\\' :: cs) = .ok (c :: s, rest) := by
  rw [text]
  split
  · rename_i hflaw
    rw [hescape] at hflaw
    cases hflaw
  · rename_i hok
    rw [hescape] at hok
    cases hok
    rw [h]

theorem skipText_plain {cs : List Char} (hquote : c ≠ '"') (hslash : c ≠ '\\')
    (hcontrol : isControl c = false) : skipText (c :: cs) = skipText cs := by
  rw [skipText, hcontrol]
  · rfl
  · exact hquote
  · exact hslash

theorem skipText_escape {cs after : List Char} (hescape : skipEscape cs = .ok after) :
    skipText ('\\' :: cs) = skipText after := by
  rw [skipText]
  split
  · rename_i hflaw
    rw [hescape] at hflaw
    cases hflaw
  · rename_i hok
    rw [hescape] at hok
    cases hok
    rfl

theorem isControl_eq_false (h : ' ' ≤ c) : isControl c = false :=
  decide_eq_false (Nat.not_lt.2 (UInt32.le_iff_toNat_le.1 h))

/-- However a character is written, it is read as itself. -/
theorem IsCharText.text_append {cs : List Char} (hpart : IsCharText c part)
    (h : text cs = .ok (s, rest)) : text (part ++ cs) = .ok (c :: s, rest) := by
  cases hpart with
  | plain hquote hslash hcontrol =>
    exact text_plain hquote hslash (isControl_eq_false hcontrol) h
  | letter hletter => exact text_escape (escape_letter hletter) h
  | unit hunit => exact text_escape (escape_unit hunit) h
  | pair hhigh hlow hfirst hsecond hc =>
    rw [List.append_assoc]
    exact text_escape (escape_pair hhigh hlow hfirst hsecond hc) h

theorem IsCharText.skipText_append {cs : List Char} (hpart : IsCharText c part) :
    skipText (part ++ cs) = skipText cs := by
  cases hpart with
  | plain hquote hslash hcontrol =>
    exact skipText_plain hquote hslash (isControl_eq_false hcontrol)
  | letter hletter => exact skipText_escape (skipEscape_letter hletter)
  | unit hunit => exact skipText_escape (skipEscape_unit hunit)
  | pair hhigh hlow hfirst hsecond hc =>
    rw [List.append_assoc]
    exact (skipText_escape (skipEscape_unit hfirst)).trans
      (skipText_escape (skipEscape_unit hsecond))

/-- However its characters are written, a string is read as itself up to its closing quote. -/
theorem text_flatten {parts : List (List Char)} (h : List.Forall₂ IsCharText s parts) :
    text (parts.flatten ++ '"' :: rest) = .ok (s, rest) := by
  induction h with
  | nil => rw [List.flatten_nil, List.nil_append, text]
  | cons hpart _ ih =>
    rw [List.flatten_cons, List.append_assoc]
    exact hpart.text_append ih

theorem skipText_flatten {parts : List (List Char)} (h : List.Forall₂ IsCharText s parts) :
    skipText (parts.flatten ++ '"' :: rest) = .ok rest := by
  induction h with
  | nil => rw [List.flatten_nil, List.nil_append, skipText]
  | cons hpart _ ih =>
    rw [List.flatten_cons, List.append_assoc, hpart.skipText_append]
    exact ih

end Funnel.Json
