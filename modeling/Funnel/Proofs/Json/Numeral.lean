import Funnel.Json.Numeral

/-!
# Reading the texts of integers

The numeral of an integer ends where no digit, fraction or exponent follows. It is read as itself if
64 bits hold it.
-/

namespace Funnel.Json

/-- A numeral in front of such a text ends there. -/
def EndsNumeral (rest : List Char) : Prop :=
  ∀ c ∈ rest.head?, c.isDigit = false ∧ c ≠ '.' ∧ c ≠ 'e' ∧ c ≠ 'E'

namespace Numeral

variable {rest : List Char}

theorem head?_toDigits_ne_zero {n : Nat} (h : 0 < n) : (Nat.toDigits 10 n).head? ≠ some '0' := by
  induction n using Nat.base_induction 10 (by decide) with
  | single n hn =>
    rw [Nat.toDigits_of_lt_base hn, List.head?_cons, ne_eq, Option.some.injEq,
      Nat.digitChar_eq_zero]
    exact Nat.ne_of_gt h
  | digit n d hd hn ih =>
    obtain ⟨first, others, hfirst⟩ := List.exists_cons_of_ne_nil (Nat.toDigits_ne_nil (n := n))
    rw [hfirst] at ih
    rw [← Nat.toDigits_append_toDigits (by decide) hn hd, hfirst]
    exact ih hn

theorem digits_append {ds : List Char} (hne : ds ≠ []) (hds : ∀ c ∈ ds, c.isDigit = true)
    (hrest : EndsNumeral rest) : digits (ds ++ rest) = .ok (ds, rest) := by
  have htake : rest.takeWhile Char.isDigit = [] := by
    cases rest with
    | nil => rfl
    | cons c rest => simp [(hrest c rfl).1]
  have hdrop : rest.dropWhile Char.isDigit = rest := by
    cases rest with
    | nil => rfl
    | cons c rest => simp [(hrest c rfl).1]
  rw [digits, List.takeWhile_append_of_pos hds, List.dropWhile_append_of_pos hds, htake, hdrop,
    List.append_nil, List.isEmpty_eq_false_iff.2 hne]
  rfl

theorem wholeDigits_toDigits (n : Nat) (hrest : EndsNumeral rest) :
    wholeDigits (Nat.toDigits 10 n ++ rest) = .ok (Nat.toDigits 10 n, rest) := by
  have hdigits : digits (Nat.toDigits 10 n ++ rest) = .ok (Nat.toDigits 10 n, rest) :=
    digits_append Nat.toDigits_ne_nil
      (fun _ hc => Nat.isDigit_of_mem_toDigits (by decide) (by decide) hc) hrest
  unfold wholeDigits
  split
  · rename_i d ds rest' h
    rw [hdigits] at h
    have hn : 0 < n := by
      rcases Nat.eq_zero_or_pos n with rfl | hn
      · simp at h
      · exact hn
    obtain ⟨hlist, -⟩ := Prod.mk.inj (Except.ok.inj h)
    exact absurd (by rw [hlist]; rfl) (head?_toDigits_ne_zero hn)
  · exact hdigits

theorem fractionDigits_of_endsNumeral (hrest : EndsNumeral rest) :
    fractionDigits rest = .ok ([], rest) := by
  unfold fractionDigits
  split
  · exact absurd rfl (hrest _ rfl).2.1
  · rfl

theorem exponentDigits_of_endsNumeral (hrest : EndsNumeral rest) :
    exponentDigits rest = .ok (none, rest) := by
  unfold exponentDigits
  split
  · exact absurd rfl (hrest _ rfl).2.2.1
  · exact absurd rfl (hrest _ rfl).2.2.2
  · rfl

/-- The numeral of an integer. -/
def ofInt (n : Int) : Numeral :=
  ⟨decide (n < 0), Nat.toDigits 10 n.natAbs, [], none⟩

theorem sign_toDigits (n : Nat) :
    sign (Nat.toDigits 10 n ++ rest) = (false, Nat.toDigits 10 n ++ rest) := by
  unfold sign
  split
  · rename_i tail h
    have hmem : '-' ∈ Nat.toDigits 10 n := by
      cases hdigits : Nat.toDigits 10 n with
      | nil => exact absurd hdigits Nat.toDigits_ne_nil
      | cons d ds =>
        rw [hdigits, List.cons_append] at h
        rw [(List.cons.inj h).1]
        exact List.mem_cons_self ..
    exact absurd (Nat.isDigit_of_mem_toDigits (by decide) (by decide) hmem) (by decide)
  · rfl

theorem toList_toString (n : Int) :
    (toString n).toList = (if n < 0 then ['-'] else []) ++ Nat.toDigits 10 n.natAbs := by
  rw [Int.toString_eq_repr, Int.repr_eq_if]
  by_cases h : n < 0
  · rw [if_neg (Int.not_le.2 h), if_pos h, String.toList_append, Nat.toList_repr,
      show (-n).toNat = n.natAbs by omega]
    rfl
  · rw [if_pos (Int.not_lt.1 h), if_neg h, Nat.toList_repr, show n.toNat = n.natAbs by omega]
    rfl

theorem sign_toString (n : Int) :
    sign ((toString n).toList ++ rest) = (decide (n < 0), Nat.toDigits 10 n.natAbs ++ rest) := by
  rw [toList_toString]
  split
  · rename_i h
    rw [decide_eq_true h]
    rfl
  · rename_i h
    rw [decide_eq_false h]
    exact sign_toDigits _

/-- The text of an integer is split into its sign and its digits. -/
theorem scan_toString (n : Int) (hrest : EndsNumeral rest) :
    scan ((toString n).toList ++ rest) = .ok (ofInt n, rest) := by
  rw [scan, sign_toString, wholeDigits_toDigits _ hrest]
  simp only [bind, Except.bind, fractionDigits_of_endsNumeral hrest,
    exponentDigits_of_endsNumeral hrest]
  rfl

theorem skip_toString (n : Int) (hrest : EndsNumeral rest) :
    Numeral.skip ((toString n).toList ++ rest) = .ok rest := by
  rw [Numeral.skip, scan_toString n hrest]

theorem value?_ofInt {n : Int} (hmin : Int64.minValue.toInt ≤ n) (hmax : n < UInt64.size) :
    (ofInt n).value? = some (.integer n) := by
  have hdigits : (Nat.toDigits 10 n.natAbs).foldl (fun n d => 10 * n + digitValue d) 0 =
      n.natAbs := Nat.ofDigitChars_ten_toDigits
  by_cases hneg : n < 0
  · have habs : -(n.natAbs : Int) = n := by omega
    have hpos : 0 < n.natAbs := by omega
    simp only [value?, ofInt, hdigits, hneg, habs, hmin, hpos]
    simp
  · have habs : (n.natAbs : Int) = n := by omega
    have hlt : n.natAbs < UInt64.size := by omega
    simp [value?, ofInt, hdigits, hneg, habs, hlt]

theorem read_toString {n : Int} (hmin : Int64.minValue.toInt ≤ n) (hmax : n < UInt64.size)
    (hrest : EndsNumeral rest) :
    Numeral.read ((toString n).toList ++ rest) = .ok (.integer n, rest) := by
  rw [Numeral.read, scan_toString n hrest]
  simp only [value?_ofInt hmin hmax]

end Numeral

end Funnel.Json
