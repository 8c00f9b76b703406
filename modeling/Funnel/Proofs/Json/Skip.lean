import Funnel.Json.Skip
import Funnel.Proofs.Json.Scalar

namespace Funnel.Json

variable {token : Token} {tokens : List Token} {cs rest after : List Char}
  {stack : List Bracket}

theorem skipFrom_scalar (h : skipScalar (skipSpace cs) = .ok rest) :
    skipFrom .value stack cs = skipFrom .after stack rest := by
  conv_lhs => rw [skipFrom]
  split
  · rename_i hcs
    rw [hcs] at h
    simp [skipScalar] at h
  · rename_i hcs
    rw [hcs] at h
    simp [skipScalar] at h
  · split <;> simp_all

theorem skipFrom_emptyArray (h : skipSpace cs = '[' :: rest)
    (hrest : skipSpace rest = ']' :: after) :
    skipFrom .value stack cs = skipFrom .after stack after := by
  conv_lhs => rw [skipFrom]
  split <;> simp_all
  split <;> simp_all

theorem skipFrom_array {c : Char} (h : skipSpace cs = '[' :: rest)
    (hrest : skipSpace rest = c :: after) (hc : c ≠ ']') :
    skipFrom .value stack cs = skipFrom .value (.square :: stack) (skipSpace rest) := by
  conv_lhs => rw [skipFrom]
  split <;> simp_all

theorem skipFrom_emptyObject (h : skipSpace cs = '{' :: rest)
    (hrest : skipSpace rest = '}' :: after) :
    skipFrom .value stack cs = skipFrom .after stack after := by
  conv_lhs => rw [skipFrom]
  split <;> simp_all
  split <;> simp_all

theorem skipFrom_object {c : Char} (h : skipSpace cs = '{' :: rest)
    (hrest : skipSpace rest = c :: after) (hc : c ≠ '}') :
    skipFrom .value stack cs = skipFrom .key (.curly :: stack) (skipSpace rest) := by
  conv_lhs => rw [skipFrom]
  split <;> simp_all

theorem skipFrom_comma (h : skipSpace cs = ',' :: rest) :
    skipFrom .after (.square :: stack) cs = skipFrom .value (.square :: stack) rest := by
  conv_lhs => rw [skipFrom]
  split <;> simp_all

theorem skipFrom_arrayEnd (h : skipSpace cs = ']' :: rest) :
    skipFrom .after (.square :: stack) cs = skipFrom .after stack rest := by
  conv_lhs => rw [skipFrom]
  split <;> simp_all

theorem skipFrom_memberComma (h : skipSpace cs = ',' :: rest) :
    skipFrom .after (.curly :: stack) cs = skipFrom .key (.curly :: stack) rest := by
  conv_lhs => rw [skipFrom]
  split <;> simp_all

theorem skipFrom_objectEnd (h : skipSpace cs = '}' :: rest) :
    skipFrom .after (.curly :: stack) cs = skipFrom .after stack rest := by
  conv_lhs => rw [skipFrom]
  split <;> simp_all

theorem skipFrom_key {tail : List Char} (h : skipSpace cs = '"' :: tail)
    (htext : skipText tail = .ok rest) (hcolon : colon rest = .ok after) :
    skipFrom .key stack cs = skipFrom .value stack after := by
  conv_lhs => rw [skipFrom]
  split <;> simp_all
  split <;> simp_all
  split <;> simp_all

theorem Spells.exists_colon (h : Spells (.colon :: tokens) cs) :
    ∃ rest, Spells tokens rest ∧ colon cs = .ok rest := by
  obtain ⟨rest, hrest, heq⟩ := h.exists_mark ':' trivial rfl
  refine ⟨rest, hrest, ?_⟩
  rw [colon, heq]
  rfl

theorem exists_skipFrom_of_token (h : Spells (token :: tokens) cs) (hscalar : token.IsScalar)
    (hend : EndValue tokens) :
    ∃ rest, Spells tokens rest ∧ skipFrom .value stack cs = skipFrom .after stack rest := by
  obtain ⟨part, rest, hpart, hrest, heq⟩ := h.exists_skipSpace
  have hskip := hpart.skipScalar_append hscalar (hrest.endsNumeral hend)
  rw [← heq] at hskip
  exact ⟨rest, hrest, skipFrom_scalar hskip⟩

mutual

/-- A value is passed over, inside of any brackets. -/
theorem exists_skipFrom (value : Json) {tokens : List Token} {cs : List Char}
    {stack : List Bracket} (h : Spells (value.tokens ++ tokens) cs) (hend : EndValue tokens) :
    ∃ rest, Spells tokens rest ∧ skipFrom .value stack cs = skipFrom .after stack rest := by
  match value with
  | .null | .bool _ | .integer _ | .float _ | .string _ =>
    exact exists_skipFrom_of_token h trivial hend
  | .array [] =>
    obtain ⟨cs', h', heq⟩ := h.exists_mark '[' trivial rfl
    obtain ⟨rest, hrest, heq'⟩ := h'.exists_mark ']' trivial rfl
    exact ⟨rest, hrest, skipFrom_emptyArray heq heq'⟩
  | .array (item :: items) =>
    rw [tokens_array_append] at h
    obtain ⟨cs', h', heq⟩ := h.exists_mark '[' trivial rfl
    obtain ⟨rest, hrest, hskip⟩ := exists_skipFrom_items (item :: items) (by simp) h'.skipSpace
    -- an item does not start with the mark that would end the array
    obtain ⟨token, others, htokens, hne⟩ := exists_itemTokens_eq_cons item items
    rw [htokens] at h'
    obtain ⟨c, tail, heq', hclose, -⟩ := Spells.exists_cons h'
    exact ⟨rest, hrest, (skipFrom_array heq heq' (mt hclose hne)).trans hskip⟩
  | .object [] =>
    obtain ⟨cs', h', heq⟩ := h.exists_mark '{' trivial rfl
    obtain ⟨rest, hrest, heq'⟩ := h'.exists_mark '}' trivial rfl
    exact ⟨rest, hrest, skipFrom_emptyObject heq heq'⟩
  | .object ((name, value) :: members) =>
    rw [tokens_object_append] at h
    obtain ⟨cs', h', heq⟩ := h.exists_mark '{' trivial rfl
    obtain ⟨rest, hrest, hskip⟩ :=
      exists_skipFrom_members ((name, value) :: members) (by simp) h'.skipSpace
    obtain ⟨others, htokens⟩ := exists_memberTokens_eq_cons name value members
    rw [htokens] at h'
    obtain ⟨inner, _, -, heq', -, -⟩ := Spells.exists_string h'
    exact ⟨rest, hrest, (skipFrom_object heq heq' (by decide)).trans hskip⟩

/-- What is left of an array with some items is passed over. -/
theorem exists_skipFrom_items (items : List Json) (hne : items ≠ []) {tokens : List Token}
    {cs : List Char} {stack : List Bracket}
    (h : Spells ([.comma].intercalate (itemTokens items) ++ .arrayEnd :: tokens) cs) :
    ∃ rest, Spells tokens rest ∧
      skipFrom .value (.square :: stack) cs = skipFrom .after stack rest := by
  match items with
  | [] => exact absurd rfl hne
  | [item] =>
    rw [itemTokens, itemTokens, List.intercalate_singleton] at h
    obtain ⟨cs', h', hskip⟩ := exists_skipFrom item h (endValue_cons (by simp))
    obtain ⟨rest, hrest, heq⟩ := h'.exists_mark ']' trivial rfl
    exact ⟨rest, hrest, hskip.trans (skipFrom_arrayEnd heq)⟩
  | item :: next :: items =>
    rw [itemTokens, itemTokens, intercalate_comma_append] at h
    obtain ⟨cs', h', hskip⟩ := exists_skipFrom item h (endValue_cons (by simp))
    obtain ⟨cs'', h'', heq⟩ := h'.exists_mark ',' trivial rfl
    obtain ⟨rest, hrest, hskip'⟩ := exists_skipFrom_items (next :: items) (by simp) h''
    exact ⟨rest, hrest, hskip.trans ((skipFrom_comma heq).trans hskip')⟩

/-- What is left of an object with some members is passed over. -/
theorem exists_skipFrom_members (members : List (String × Json)) (hne : members ≠ [])
    {tokens : List Token} {cs : List Char} {stack : List Bracket}
    (h : Spells ([.comma].intercalate (memberTokens members) ++ .objectEnd :: tokens) cs) :
    ∃ rest, Spells tokens rest ∧
      skipFrom .key (.curly :: stack) cs = skipFrom .after stack rest := by
  match members with
  | [] => exact absurd rfl hne
  | [(name, value)] =>
    rw [memberTokens, memberTokens, List.intercalate_singleton] at h
    obtain ⟨inner, after, hafter, heq, -, htext⟩ := Spells.exists_string h
    obtain ⟨cs', h', hcolon⟩ := hafter.exists_colon
    obtain ⟨cs'', h'', hskip⟩ := exists_skipFrom value h' (endValue_cons (by simp))
    obtain ⟨rest, hrest, hend⟩ := h''.exists_mark '}' trivial rfl
    exact ⟨rest, hrest,
      (skipFrom_key heq htext hcolon).trans (hskip.trans (skipFrom_objectEnd hend))⟩
  | (name, value) :: next :: members =>
    rw [memberTokens, memberTokens, intercalate_comma_append] at h
    obtain ⟨inner, after, hafter, heq, -, htext⟩ := Spells.exists_string h
    obtain ⟨cs', h', hcolon⟩ := hafter.exists_colon
    obtain ⟨cs'', h'', hskip⟩ := exists_skipFrom value h' (endValue_cons (by simp))
    obtain ⟨cs₃, h₃, hcomma⟩ := h''.exists_mark ',' trivial rfl
    obtain ⟨rest, hrest, hskip'⟩ := exists_skipFrom_members (next :: members) (by simp) h₃
    exact ⟨rest, hrest, (skipFrom_key heq htext hcolon).trans
      (hskip.trans ((skipFrom_memberComma hcomma).trans hskip'))⟩

end

/-- Behind a value stands what follows its last token. -/
theorem exists_skip {value : Json} (h : Spells (value.tokens ++ tokens) cs)
    (hend : EndValue tokens) : ∃ rest, Spells tokens rest ∧ skip cs = .ok rest := by
  obtain ⟨rest, hrest, hskip⟩ := exists_skipFrom value h hend
  refine ⟨rest, hrest, hskip.trans ?_⟩
  rw [skipFrom]

end Funnel.Json
