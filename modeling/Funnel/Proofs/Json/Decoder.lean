import Funnel.Json.Decoder
import Funnel.Proofs.Json.Skip

/-!
# Decoding what was written

A decoder reads a value as another one if it does so in every text of the value, whatever follows
behind it.
-/

namespace Funnel.Json

variable {α β : Type} {tokens : List Token} {cs : List Char}

/-- What stands in front of an item or a member, behind the opening bracket or behind the one
before. -/
def lead (first : Bool) : List Token :=
  if first then [] else [.comma]

theorem nextItem_arrayEnd (first : Bool) (h : Spells (.arrayEnd :: tokens) cs) :
    ∃ rest, Spells tokens rest ∧ nextItem first cs = .ok (.close rest) := by
  obtain ⟨rest, hrest, heq⟩ := h.exists_mark ']' trivial rfl
  refine ⟨rest, hrest, ?_⟩
  rw [nextItem, heq]
  rfl

theorem nextItem_first {c : Char} {tail : List Char} (h : skipSpace cs = c :: tail)
    (hc : c ≠ ']') : nextItem true cs = .ok (.item (skipSpace cs)) := by
  rw [nextItem, h]
  split <;> simp_all

theorem nextItem_comma {c : Char} {rest tail : List Char} (h : skipSpace cs = ',' :: rest)
    (hrest : skipSpace rest = c :: tail) (hc : c ≠ ']') :
    nextItem false cs = nextItem true rest := by
  rw [nextItem, nextItem, h, hrest]
  split
  all_goals (rename_i hcs; cases hcs)
  simp only [hrest]
  split <;> simp_all

theorem exists_nextItem {first : Bool} {token : Token}
    (h : Spells (lead first ++ token :: tokens) cs) (hne : token ≠ .arrayEnd) :
    ∃ rest, Spells (token :: tokens) rest ∧ nextItem first cs = .ok (.item rest) := by
  cases first with
  | true =>
    obtain ⟨c, tail, heq, hclose, -⟩ := Spells.exists_cons h
    exact ⟨skipSpace cs, h.skipSpace, nextItem_first heq (mt hclose hne)⟩
  | false =>
    obtain ⟨rest, hrest, hcomma⟩ := h.exists_mark ',' trivial rfl
    obtain ⟨c, tail, heq, hclose, -⟩ := hrest.exists_cons
    have hc : c ≠ ']' := mt hclose hne
    exact ⟨skipSpace rest, hrest.skipSpace,
      (nextItem_comma hcomma heq hc).trans (nextItem_first heq hc)⟩

theorem nextKey_objectEnd (first : Bool) (h : Spells (.objectEnd :: tokens) cs) :
    ∃ rest, Spells tokens rest ∧ nextKey first cs = .ok (.close rest) := by
  obtain ⟨rest, hrest, heq⟩ := h.exists_mark '}' trivial rfl
  refine ⟨rest, hrest, ?_⟩
  rw [nextKey, heq]
  rfl

theorem nextKey_first {name : String} (h : Spells (.string name :: tokens) cs) :
    ∃ rest, Spells tokens rest ∧ nextKey true cs = .ok (.key name rest) := by
  obtain ⟨inner, rest, hrest, heq, htext, -⟩ := h.exists_string
  refine ⟨rest, hrest, ?_⟩
  rw [nextKey, heq]
  change key ('"' :: inner) = _
  simp [key, htext, Except.map]

theorem nextKey_comma {rest inner : List Char} (h : skipSpace cs = ',' :: rest)
    (hrest : skipSpace rest = '"' :: inner) : nextKey false cs = nextKey true rest := by
  rw [nextKey, nextKey, h]
  split
  all_goals (rename_i hcs; cases hcs)
  simp only [hrest]
  rfl

theorem exists_nextKey {first : Bool} {name : String}
    (h : Spells (lead first ++ .string name :: tokens) cs) :
    ∃ rest, Spells tokens rest ∧ nextKey first cs = .ok (.key name rest) := by
  cases first with
  | true => exact nextKey_first h
  | false =>
    obtain ⟨others, hothers, heq⟩ := h.exists_mark ',' trivial rfl
    obtain ⟨rest, hrest, hkey⟩ := nextKey_first hothers
    obtain ⟨inner, -, -, heq', -, -⟩ := hothers.exists_string
    exact ⟨rest, hrest, (nextKey_comma heq heq').trans hkey⟩

/-- A decoder makes one value of all texts of another. -/
def Decoder.Reads (decoder : Decoder α) (json : Json) (value : α) : Prop :=
  ∀ ⦃tokens : List Token⦄ ⦃cs : List Char⦄, Spells (json.tokens ++ tokens) cs → EndValue tokens →
    decoder cs = .ok value

namespace Decoder

variable {decoder : Decoder α} {json : Json} {value : α}

theorem Reads.exists_run (h : decoder.Reads json value) (hcs : Spells (json.tokens ++ tokens) cs)
    (hend : EndValue tokens) :
    ∃ rest, Spells tokens rest ∧ decoder.run cs = .ok (value, rest) := by
  obtain ⟨rest, hrest, hskip⟩ := exists_skip hcs hend
  refine ⟨rest, hrest, ?_⟩
  rw [run, h hcs hend, hskip]
  rfl

theorem scalarOf_eq_ok {expected : String} {use : Json → Option (Except ShapeError α)}
    {rest : List Char} (hscalar : scalar (skipSpace cs) = .ok (json, rest))
    (huse : use json = some (.ok value)) : scalarOf expected use cs = .ok value := by
  rw [scalarOf, hscalar]
  simp only [huse]
  rfl

theorem reads_text (s : String) : text.Reads (.string s) s := by
  intro tokens cs hcs _
  obtain ⟨part, rest, hpart, -, heq⟩ := Spells.exists_skipSpace hcs
  exact scalarOf_eq_ok (heq ▸ scalar_string hpart) rfl

theorem reads_bool (b : Bool) : bool.Reads (.bool b) b := by
  intro tokens cs hcs _
  obtain ⟨part, rest, hpart, -, heq⟩ := Spells.exists_skipSpace hcs
  exact scalarOf_eq_ok (heq ▸ scalar_bool hpart) rfl

theorem reads_integer {expected : String} {accepts : Int → Bool} {n : Int}
    (haccepts : accepts n = true) (hmin : Int64.minValue.toInt ≤ n) (hmax : n < UInt64.size) :
    (integer expected accepts).Reads (.integer n) n := by
  intro tokens cs hcs hend
  obtain ⟨part, rest, hpart, hrest, heq⟩ := Spells.exists_skipSpace hcs
  refine scalarOf_eq_ok (heq ▸ scalar_integer hmin hmax hpart (hrest.endsNumeral hend)) ?_
  simp only [haccepts, if_true]

theorem reads_uint32 (n : UInt32) : uint32.Reads (.integer n.toNat) n := by
  intro tokens cs hcs hend
  have hlt : (n.toNat : Int) < UInt32.size := Int.ofNat_lt.2 n.toNat_lt_size
  have hread : integer "u32" (fun n => 0 ≤ n && n < UInt32.size) cs = .ok (n.toNat : Int) :=
    reads_integer (by rw [decide_eq_true (Int.natCast_nonneg _), decide_eq_true hlt]; rfl)
      (Int.le_trans (by decide) (Int.natCast_nonneg _)) (Int.lt_trans hlt (by decide)) hcs hend
  rw [uint32, hread]
  simp [Except.map]

theorem reads_int64 (n : Int64) : int64.Reads (.integer n.toInt) n := by
  intro tokens cs hcs hend
  have hmin : Int64.minValue.toInt ≤ n.toInt := n.minValue_le_toInt
  have hmax : n.toInt ≤ Int64.maxValue.toInt := n.toInt_le
  have hread : integer "i64"
      (fun n => Int64.minValue.toInt ≤ n && n ≤ Int64.maxValue.toInt) cs = .ok n.toInt :=
    reads_integer (by rw [decide_eq_true hmin, decide_eq_true hmax]; rfl) hmin
      (Int.lt_of_le_of_lt hmax (by decide)) hcs hend
  rw [int64, hread]
  simp [Except.map]

theorem reads_null : (nullable decoder).Reads .null none := by
  intro tokens cs hcs _
  obtain ⟨part, rest, hpart, -, heq⟩ := Spells.exists_skipSpace hcs
  cases hpart
  rw [nullable, heq]
  rfl

theorem Reads.nullable (h : decoder.Reads json value) (hne : json ≠ .null) :
    (nullable decoder).Reads json (some value) := by
  intro tokens cs hcs hend
  obtain ⟨token, others, htokens, -, hnull⟩ := json.exists_tokens_eq_cons
  have hspace := hcs.skipSpace
  rw [htokens] at hcs
  obtain ⟨c, tail, heq, -, hn⟩ := Spells.exists_cons hcs
  have hread := h hspace hend
  rw [Decoder.nullable]
  split
  · rename_i hcs
    rw [heq] at hcs
    exact absurd (hnull (hn (List.cons.inj hcs).1)) hne
  · rw [hread]
    rfl

theorem reads_choice {choices : List (String × α)} {name : String}
    (h : choices.lookup name = some value) : (choice choices).Reads (.string name) value := by
  intro tokens cs hcs _
  obtain ⟨inner, rest, -, heq, htext, -⟩ := Spells.exists_string hcs
  simp only [choice, chosen, heq, htext, bind, Except.bind, String.ofList_toList, h]
  rfl

theorem items_close {first : Bool} {rest : List Char}
    (h : nextItem first cs = .ok (.close rest)) : items decoder first cs = .ok [] := by
  rw [items]
  split <;> simp_all

theorem items_item {first : Bool} {part rest : List Char}
    (h : nextItem first cs = .ok (.item part)) (hrun : decoder.run part = .ok (value, rest)) :
    items decoder first cs = (items decoder false rest).map (value :: ·) := by
  conv_lhs => rw [items]
  split <;> simp_all
  split <;> simp_all

/-- Items are read up to the end of the array. -/
theorem items_eq_ok {jsons : List Json} {values : List α}
    (h : List.Forall₂ decoder.Reads jsons values) (hne : jsons ≠ []) {first : Bool}
    (hcs : Spells (lead first ++ ([.comma].intercalate (itemTokens jsons) ++ .arrayEnd :: tokens))
      cs) : items decoder first cs = .ok values := by
  induction h generalizing first cs with
  | nil => exact absurd rfl hne
  | cons hvalue hvalues ih =>
    rename_i json value jsons values
    obtain ⟨token, others, htokens, harray⟩ := exists_itemTokens_eq_cons json jsons
    rw [htokens, List.cons_append] at hcs
    obtain ⟨part, hpart, hnext⟩ := exists_nextItem hcs harray
    rw [← List.cons_append, ← htokens] at hpart
    -- the last item is followed by the end of the array, any other one by a comma
    cases hvalues with
    | nil =>
      rw [itemTokens, itemTokens, List.intercalate_singleton] at hpart
      obtain ⟨rest, hrest, hrun⟩ := hvalue.exists_run hpart (endValue_cons (by simp))
      obtain ⟨_, -, hclose⟩ := nextItem_arrayEnd false hrest
      rw [items_item hnext hrun, items_close hclose]
      rfl
    | cons _ _ =>
      rw [itemTokens, itemTokens, intercalate_comma_append] at hpart
      obtain ⟨rest, hrest, hrun⟩ := hvalue.exists_run hpart (endValue_cons (by simp))
      have hothers : items decoder false rest = .ok _ := ih (by simp) hrest
      rw [items_item hnext hrun, hothers]
      rfl

theorem reads_list {jsons : List Json} {values : List α}
    (h : List.Forall₂ decoder.Reads jsons values) :
    (list decoder).Reads (.array jsons) values := by
  intro tokens cs hcs _
  rw [tokens_array_append] at hcs
  obtain ⟨rest, hrest, heq⟩ := hcs.exists_mark '[' trivial rfl
  simp only [list, heq]
  cases h with
  | nil =>
    obtain ⟨_, -, hclose⟩ := nextItem_arrayEnd true hrest
    exact items_close hclose
  | cons hvalue hvalues =>
    have hfirst : Spells (lead true ++ _) rest := hrest
    exact items_eq_ok (.cons hvalue hvalues) (by simp) hfirst

end Decoder

end Funnel.Json
