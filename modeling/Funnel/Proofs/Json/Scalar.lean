import Funnel.Proofs.Json.Numeral
import Funnel.Proofs.Json.Text

/-!
# Reading tokens

Whatever white space there is in front of a token, the token is what is found next. Numbers end
where white space, a comma or a closing bracket follows.
-/

namespace Funnel.Json

variable {token : Token} {tokens : List Token} {cs part rest space : List Char}

theorem isSpace_eq_true_iff {c : Char} : isSpace c = true ↔ c ∈ whiteSpace := by
  simp only [isSpace, whiteSpace, Bool.or_eq_true, decide_eq_true_eq, List.mem_cons,
    List.not_mem_nil, or_false]
  tauto

theorem skipSpace_append (h : IsSpacing space) : skipSpace (space ++ cs) = skipSpace cs :=
  List.dropWhile_append_of_pos fun c hc => isSpace_eq_true_iff.2 (h c hc)

theorem skipSpace_eq_nil (h : IsSpacing space) : skipSpace space = [] := by
  rw [← List.append_nil space, skipSpace_append h]
  rfl

theorem skipSpace_cons {c : Char} (h : isSpace c = false) : skipSpace (c :: cs) = c :: cs := by
  rw [skipSpace, List.dropWhile_cons_of_neg (by simp [h])]

/-- What the text of an integer starts with. -/
theorem exists_toString_eq_cons (n : Int) :
    ∃ c tail, (toString n).toList = c :: tail ∧ (c = '-' ∨ c.isDigit = true) := by
  obtain ⟨d, ds, hdigits⟩ :=
    List.exists_cons_of_ne_nil (Nat.toDigits_ne_nil (b := 10) (n := n.natAbs))
  have hd : d ∈ Nat.toDigits 10 n.natAbs := hdigits ▸ List.mem_cons_self ..
  rw [Numeral.toList_toString, hdigits]
  split
  · exact ⟨'-', d :: ds, rfl, .inl rfl⟩
  · exact ⟨d, ds, rfl, .inr (Nat.isDigit_of_mem_toDigits (by decide) (by decide) hd)⟩

theorem isSpace_eq_false_of_isDigit {c : Char} (h : c.isDigit = true) : isSpace c = false := by
  have hdigit : ∀ c ∈ whiteSpace, c.isDigit = false := List.forall_iff_forall_mem.1 (by decide)
  rw [Bool.eq_false_iff, ne_eq, isSpace_eq_true_iff]
  intro hmem
  rw [hdigit c hmem] at h
  cases h

/-- The text of a token starts with no white space, and only for the end of an array and for null
as these do. -/
theorem Token.IsText.exists_cons (h : token.IsText part) :
    ∃ c tail, part = c :: tail ∧ isSpace c = false ∧ (c = ']' → token = .arrayEnd) ∧
      (c = 'n' → token = .null) := by
  cases h with
  | fixed hfixed =>
    cases token with
    | arrayStart => exact ⟨'[', _, rfl, rfl, nofun, nofun⟩
    | arrayEnd => exact ⟨']', _, rfl, rfl, fun _ => rfl, nofun⟩
    | objectStart => exact ⟨'{', _, rfl, rfl, nofun, nofun⟩
    | objectEnd => exact ⟨'}', _, rfl, rfl, nofun, nofun⟩
    | colon => exact ⟨':', _, rfl, rfl, nofun, nofun⟩
    | comma => exact ⟨',', _, rfl, rfl, nofun, nofun⟩
    | null => exact ⟨'n', _, rfl, rfl, nofun, fun _ => rfl⟩
    | bool b =>
      cases b with
      | false => exact ⟨'f', _, rfl, rfl, nofun, nofun⟩
      | true => exact ⟨'t', _, rfl, rfl, nofun, nofun⟩
    | integer n =>
      obtain ⟨c, tail, heq, hc⟩ := exists_toString_eq_cons n
      refine ⟨c, tail, heq, ?_⟩
      rcases hc with rfl | hc
      · exact ⟨rfl, nofun, nofun⟩
      · refine ⟨isSpace_eq_false_of_isDigit hc, ?_, ?_⟩ <;> rintro rfl <;> cases hc
    | float _ | string _ => exact hfixed.elim
  | string _ => exact ⟨'"', _, rfl, rfl, nofun, nofun⟩

/-- White space is passed over up to the token that comes next. -/
theorem Spells.exists_skipSpace (h : Spells (token :: tokens) cs) :
    ∃ part rest, token.IsText part ∧ Spells tokens rest ∧ Json.skipSpace cs = part ++ rest := by
  cases h with
  | cons hspace hpart hrest =>
    rename_i space part rest
    obtain ⟨c, tail, rfl, hc, -, -⟩ := hpart.exists_cons
    refine ⟨_, rest, hpart, hrest, ?_⟩
    rw [skipSpace_append hspace, List.cons_append, skipSpace_cons hc]

theorem Spells.skipSpace (h : Spells tokens cs) : Spells tokens (skipSpace cs) := by
  cases tokens with
  | nil =>
    cases h with
    | nil hspace =>
      rw [skipSpace_eq_nil hspace]
      exact .nil isSpacing_nil
  | cons token tokens =>
    obtain ⟨part, rest, hpart, hrest, heq⟩ := h.exists_skipSpace
    rw [heq]
    exact .cons isSpacing_nil hpart hrest

/-- Tokens in front of which a value ends. -/
def EndValue (tokens : List Token) : Prop :=
  ∀ token ∈ tokens.head?, token = .comma ∨ token = .arrayEnd ∨ token = .objectEnd

theorem endValue_cons (h : token = .comma ∨ token = .arrayEnd ∨ token = .objectEnd) :
    EndValue (token :: tokens) := by
  rintro _ ⟨⟩
  exact h

theorem Spells.endsNumeral (h : Spells tokens cs) (hend : EndValue tokens) : EndsNumeral cs := by
  have hwhite : ∀ c ∈ whiteSpace, c.isDigit = false ∧ c ≠ '.' ∧ c ≠ 'e' ∧ c ≠ 'E' :=
    List.forall_iff_forall_mem.1 (by decide)
  have hspacing : ∀ {space rest : List Char}, IsSpacing space → EndsNumeral rest →
      EndsNumeral (space ++ rest) := by
    intro space rest hspace hrest
    cases space with
    | nil => exact hrest
    | cons c space =>
      rintro _ ⟨⟩
      exact hwhite c (hspace c (List.mem_cons_self ..))
  cases h with
  | nil hspace =>
    rw [← List.append_nil cs]
    exact hspacing hspace nofun
  | cons hspace hpart hrest =>
    refine hspacing hspace ?_
    rcases hend _ rfl with rfl | rfl | rfl <;> cases hpart <;> rintro _ ⟨⟩ <;> decide

theorem scalar_bool {b : Bool} (h : (Token.bool b).IsText part) :
    scalar (part ++ rest) = .ok (.bool b, rest) := by
  cases h
  cases b <;> rfl

theorem scalar_string {s : String} (h : (Token.string s).IsText part) :
    scalar (part ++ rest) = .ok (.string s, rest) := by
  cases h with
  | fixed hfixed => exact hfixed.elim
  | string hparts =>
    simp [scalar, text_flatten hparts, Except.map]

theorem scalar_of_numeral {c : Char} {tail : List Char} (hc : c = '-' ∨ c.isDigit = true) :
    scalar (c :: tail) = Numeral.read (c :: tail) := by
  unfold scalar
  split
  all_goals (rename_i hcs; cases hcs)
  all_goals first | exact absurd hc (by decide) | exact if_pos hc

theorem scalar_integer {n : Int} (hmin : Int64.minValue.toInt ≤ n) (hmax : n < UInt64.size)
    (h : (Token.integer n).IsText part) (hrest : EndsNumeral rest) :
    scalar (part ++ rest) = .ok (.integer n, rest) := by
  cases h
  have hread := Numeral.read_toString hmin hmax hrest
  obtain ⟨c, tail, heq, hc⟩ := exists_toString_eq_cons n
  change scalar ((toString n).toList ++ rest) = .ok (.integer n, rest)
  rw [heq, List.cons_append] at hread ⊢
  rw [scalar_of_numeral hc, hread]

/-- A token that is a value of its own. -/
def Token.IsScalar : Token → Prop
  | null | bool _ | integer _ | float _ | string _ => True
  | _ => False

theorem skipScalar_of_numeral {c : Char} {tail : List Char} (hc : c = '-' ∨ c.isDigit = true) :
    skipScalar (c :: tail) = Numeral.skip (c :: tail) := by
  unfold skipScalar
  split
  all_goals (rename_i hcs; cases hcs)
  all_goals first | exact absurd hc (by decide) | exact if_pos hc

/-- Scalars are passed over. -/
theorem Token.IsText.skipScalar_append (h : token.IsText part) (hscalar : token.IsScalar)
    (hrest : EndsNumeral rest) : skipScalar (part ++ rest) = .ok rest := by
  cases h with
  | string hparts =>
    rw [List.cons_append, List.append_assoc]
    exact skipText_flatten hparts
  | fixed hfixed =>
    cases token with
    | null => rfl
    | bool b => cases b <;> rfl
    | integer n =>
      have hskip := Numeral.skip_toString n hrest
      obtain ⟨c, tail, heq, hc⟩ := exists_toString_eq_cons n
      change skipScalar ((toString n).toList ++ rest) = .ok rest
      rw [heq, List.cons_append] at hskip ⊢
      rw [skipScalar_of_numeral hc, hskip]
    | float _ | string _ => exact hfixed.elim
    | _ => exact hscalar.elim

/-- A mark of one character is what comes next. -/
theorem Spells.exists_mark (c : Char) (h : Spells (token :: tokens) cs) (hfixed : token.IsFixed)
    (htext : token.text.toList = [c]) :
    ∃ rest, Spells tokens rest ∧ Json.skipSpace cs = c :: rest := by
  obtain ⟨part, rest, hpart, hrest, heq⟩ := h.exists_skipSpace
  cases hpart with
  | string _ => exact hfixed.elim
  | fixed _ => exact ⟨rest, hrest, by rw [heq, htext]; rfl⟩

theorem Spells.exists_cons (h : Spells (token :: tokens) cs) :
    ∃ c tail, Json.skipSpace cs = c :: tail ∧ (c = ']' → token = .arrayEnd) ∧
      (c = 'n' → token = .null) := by
  obtain ⟨part, rest, hpart, -, heq⟩ := h.exists_skipSpace
  obtain ⟨c, tail, rfl, -, hend, hnull⟩ := hpart.exists_cons
  exact ⟨c, tail ++ rest, heq, hend, hnull⟩

/-- A string is read as itself, and passed over, behind its opening quote. -/
theorem Spells.exists_string {s : String} (h : Spells (.string s :: tokens) cs) :
    ∃ inner rest, Spells tokens rest ∧ Json.skipSpace cs = '"' :: inner ∧
      text inner = .ok (s.toList, rest) ∧ skipText inner = .ok rest := by
  obtain ⟨part, rest, hpart, hrest, heq⟩ := h.exists_skipSpace
  cases hpart with
  | fixed hfixed => exact hfixed.elim
  | string hparts =>
    rw [List.cons_append, List.append_assoc] at heq
    exact ⟨_, rest, hrest, heq, text_flatten hparts, skipText_flatten hparts⟩

end Funnel.Json
