import Funnel.Sql.Identifier
import Funnel.Text.Blank
import Mathlib.Data.List.Basic

namespace Funnel.Sql

def IsLetter (c : Char) : Prop :=
  'A' ≤ c ∧ c ≤ 'Z' ∨ 'a' ≤ c ∧ c ≤ 'z'

def IsDigit (c : Char) : Prop :=
  '0' ≤ c ∧ c ≤ '9'

/-- A letter or underscore, followed by letters, digits and underscores. -/
def IsPlainName (s : String) : Prop :=
  ∃ first rest, s = String.ofList (first :: rest) ∧ (IsLetter first ∨ first = '_') ∧
    ∀ c ∈ rest, IsLetter c ∨ IsDigit c ∨ c = '_'

/-- A plain name, or a schema and a plain name with a point between. -/
inductive IsName : String → Prop
  | plain {name : String} (h : IsPlainName name) : IsName name
  | qualified {schema name : String} (hschema : IsPlainName schema) (hname : IsPlainName name) :
    IsName (schema ++ "." ++ name)

theorem isAlpha_iff {c : Char} : c.isAlpha = true ↔ IsLetter c := by
  have halpha : c.isAlpha = (decide ('A' ≤ c ∧ c ≤ 'Z') ||
      (decide ('a' ≤ c) && decide (c ≤ 'z'))) := rfl
  simp only [halpha, IsLetter, Bool.or_eq_true, Bool.and_eq_true, decide_eq_true_eq]

theorem isWordStart_iff {c : Char} : isWordStart c = true ↔ IsLetter c ∨ c = '_' := by
  rw [isWordStart, Bool.or_eq_true, isAlpha_iff, beq_iff_eq]

theorem isWordChar_iff {c : Char} : isWordChar c = true ↔ IsLetter c ∨ IsDigit c ∨ c = '_' := by
  have hdigit : c.isDigit = true ↔ IsDigit c := by
    have hrange : c.isDigit = (decide ('0' ≤ c) && decide (c ≤ '9')) := rfl
    simp only [hrange, IsDigit, Bool.and_eq_true, decide_eq_true_eq]
  rw [isWordChar, Bool.or_eq_true, Char.isAlphanum, Bool.or_eq_true, isAlpha_iff, hdigit,
    beq_iff_eq, or_assoc]

theorem isWord_iff {s : String} : isWord s.toList = true ↔ IsPlainName s := by
  constructor
  · intro h
    cases hs : s.toList with
    | nil =>
      rw [hs] at h
      cases h
    | cons first rest =>
      rw [hs, isWord, Bool.and_eq_true, List.all_eq_true] at h
      refine ⟨first, rest, ?_, isWordStart_iff.1 h.1, fun c hc => isWordChar_iff.1 (h.2 c hc)⟩
      rw [← hs, String.ofList_toList]
  · rintro ⟨first, rest, rfl, hfirst, hrest⟩
    rw [String.toList_ofList, isWord, Bool.and_eq_true, List.all_eq_true]
    exact ⟨isWordStart_iff.2 hfirst, fun c hc => isWordChar_iff.2 (hrest c hc)⟩

/-- Every character of a plain name may be part of a word. -/
theorem IsPlainName.isWordChar_of_mem {s : String} (h : IsPlainName s) {c : Char}
    (hc : c ∈ s.toList) : isWordChar c = true := by
  obtain ⟨first, rest, rfl, hfirst, hrest⟩ := h
  rw [String.toList_ofList] at hc
  rcases List.mem_cons.1 hc with rfl | hc
  · exact isWordChar_iff.2 (hfirst.imp_right .inr)
  · exact isWordChar_iff.2 (hrest c hc)

theorem IsPlainName.point_not_mem {s : String} (h : IsPlainName s) : '.' ∉ s.toList :=
  fun hmem => absurd (h.isWordChar_of_mem hmem) (by decide)

/-- A text that is cut at its points into words is a name if there are at most two of them. -/
theorem isName_of_isIdentifier {s : String} (h : isIdentifier s = true) : IsName s := by
  obtain ⟨hlength, hwords⟩ := Bool.and_eq_true_iff.1 h
  have hjoin : ['.'].intercalate (s.toList.splitOn '.') = s.toList := List.intercalate_splitOn '.'
  -- more than two parts are too many, and no text is cut into none
  match hparts : s.toList.splitOn '.' with
  | [] => exact absurd hparts (List.splitOnP_ne_nil _ _)
  | [word] =>
    rw [hparts] at hjoin hwords
    have hs : s.toList = word := by simpa using hjoin.symm
    rw [← hs] at hwords
    exact .plain (isWord_iff.1 (by simpa using hwords))
  | [schema, name] =>
    rw [hparts] at hjoin hwords
    have hs : s = String.ofList schema ++ "." ++ String.ofList name := by
      rw [← String.toList_inj, ← hjoin]
      simp
    simp only [List.all_cons, List.all_nil, Bool.and_true, Bool.and_eq_true] at hwords
    rw [hs]
    refine .qualified (isWord_iff.1 ?_) (isWord_iff.1 ?_)
    · rw [String.toList_ofList]
      exact hwords.1
    · rw [String.toList_ofList]
      exact hwords.2
  | first :: second :: third :: rest =>
    rw [hparts] at hlength
    simp at hlength

theorem isIdentifier_of_parts {s : String} (parts : List (List Char)) (hne : parts ≠ [])
    (hs : s.toList = ['.'].intercalate parts) (hpoint : ∀ part ∈ parts, '.' ∉ part)
    (hlength : parts.length ≤ 2) (hwords : parts.all isWord = true) : isIdentifier s = true := by
  have hparts : s.toList.splitOn '.' = parts := by
    rw [hs]
    exact List.splitOn_intercalate '.' hpoint hne
  simp [isIdentifier, hparts, hlength, hwords]

theorem isIdentifier_iff {s : String} : isIdentifier s = true ↔ IsName s := by
  refine ⟨isName_of_isIdentifier, ?_⟩
  rintro (hplain | ⟨hschema, hname⟩)
  · refine isIdentifier_of_parts [s.toList] (by simp) (by simp) ?_ (by simp) ?_
    · simpa using hplain.point_not_mem
    · simpa using isWord_iff.2 hplain
  · rename_i schema name
    refine isIdentifier_of_parts [schema.toList, name.toList] (by simp) (by simp) ?_ (by simp) ?_
    · simpa using ⟨hschema.point_not_mem, hname.point_not_mem⟩
    · simpa using ⟨isWord_iff.2 hschema, isWord_iff.2 hname⟩

theorem isUnqualified_iff {s : String} : isUnqualified s = true ↔ IsPlainName s := by
  rw [isUnqualified, Bool.and_eq_true, isIdentifier_iff, Bool.not_eq_true',
    List.contains_eq_mem, decide_eq_false_iff_not]
  constructor
  · rintro ⟨hplain | ⟨hschema, hname⟩, hpoint⟩
    · exact hplain
    · simp at hpoint
  · intro h
    exact ⟨.plain h, h.point_not_mem⟩

theorem IsLetter.isBlankChar_eq_false {c : Char} (h : IsLetter c) :
    Text.isBlankChar c = false := by
  have hcodes : 65 ≤ c.toNat ∧ c.toNat ≤ 90 ∨ 97 ≤ c.toNat ∧ c.toNat ≤ 122 := h
  simp only [Text.isBlankChar, Bool.or_eq_false_iff, Bool.and_eq_false_iff,
    decide_eq_false_iff_not, beq_eq_false_iff_ne]
  omega

theorem IsPlainName.exists_not_isBlankChar {s : String} (h : IsPlainName s) :
    ∃ c ∈ s.toList, Text.isBlankChar c = false := by
  obtain ⟨first, rest, rfl, hfirst, -⟩ := h
  refine ⟨first, by simp, ?_⟩
  rcases hfirst with hletter | rfl
  · exact hletter.isBlankChar_eq_false
  · rfl

theorem IsName.isBlank_eq_false {s : String} (h : IsName s) : Text.isBlank s = false := by
  have hchar : ∃ c ∈ s.toList, Text.isBlankChar c = false := by
    cases h with
    | plain hplain => exact hplain.exists_not_isBlankChar
    | qualified hschema hname =>
      obtain ⟨c, hc, hblank⟩ := hschema.exists_not_isBlankChar
      exact ⟨c, by simp [hc], hblank⟩
  obtain ⟨c, hc, hblank⟩ := hchar
  exact List.all_eq_false.2 ⟨c, hc, by simp [hblank]⟩

end Funnel.Sql
