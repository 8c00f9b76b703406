import Funnel.Report
import Mathlib.Data.List.Basic

/-!
# Lines and cells of a report

Figures hold neither line feeds nor bars, so that what a report or a line is cut into depends on the
names and values that stand in it.
-/

namespace Funnel

namespace Text

/-- The parts of a text between the places where a character stands. -/
def pieces (c : Char) (s : String) : List String :=
  (s.toList.splitOn c).map String.ofList

variable {c : Char} {parts : List String}

theorem not_mem_of_mem_splitOn {cs piece : List Char} (h : piece ∈ cs.splitOn c) : c ∉ piece := by
  induction cs generalizing piece with
  | nil =>
    rw [List.splitOn_nil, List.mem_singleton] at h
    rw [h]
    exact List.not_mem_nil
  | cons d cs ih =>
    obtain ⟨first, rest, hsplit⟩ := List.exists_cons_of_ne_nil (List.splitOn_ne_nil c cs)
    rw [List.splitOn_cons_eq_if_modifyHead] at h
    by_cases hd : d = c
    · rw [if_pos (beq_iff_eq.2 hd)] at h
      rcases List.mem_cons.1 h with rfl | h
      · exact List.not_mem_nil
      · exact ih h
    · rw [if_neg (by simpa using hd), hsplit, List.modifyHead_cons] at h
      rcases List.mem_cons.1 h with rfl | h
      · have hfirst : c ∉ first := ih (hsplit ▸ List.mem_cons_self ..)
        simp [hfirst, Ne.symm hd]
      · exact ih (hsplit ▸ List.mem_cons_of_mem _ h)

/-- Joined parts are the pieces of what they make up unless the character stands in one of them. -/
theorem pieces_intercalate_eq_iff (h : parts ≠ []) :
    pieces c ((String.singleton c).intercalate parts) = parts ↔
      ∀ part ∈ parts, c ∉ part.toList := by
  have hjoin : ((String.singleton c).intercalate parts).toList =
      [c].intercalate (parts.map String.toList) := by
    simp
  constructor
  · intro heq part hpart
    rw [← heq] at hpart
    obtain ⟨piece, hpiece, rfl⟩ := List.mem_map.1 hpart
    rw [String.toList_ofList]
    exact not_mem_of_mem_splitOn hpiece
  · intro hparts
    rw [pieces, hjoin, List.splitOn_intercalate c ?_ (by simpa using h), List.map_map]
    · exact (List.map_congr_left fun part _ => String.ofList_toList).trans (List.map_id _)
    · rintro _ hlist
      obtain ⟨part, hpart, rfl⟩ := List.mem_map.1 hlist
      exact hparts part hpart

/-- A character that does not stand between joined parts has to stand in one of them. -/
theorem not_mem_intercalate {sep : String} (hsep : c ∉ sep.toList) :
    c ∉ (sep.intercalate parts).toList ↔ ∀ part ∈ parts, c ∉ part.toList := by
  induction parts with
  | nil => simp
  | cons part rest ih =>
    cases rest with
    | nil => simp
    | cons next rest =>
      rw [String.intercalate_cons_cons, String.toList_append, String.toList_append,
        List.mem_append, List.mem_append, List.forall_mem_cons, ← ih]
      simp only [hsep, or_false, not_or]

/-- There is one piece more than there are places of the character. -/
theorem length_pieces (c : Char) (s : String) : (pieces c s).length = s.toList.count c + 1 := by
  have hlists : ∀ cs : List Char, (cs.splitOn c).length = cs.count c + 1 := by
    intro cs
    induction cs with
    | nil => rfl
    | cons d cs ih =>
      rw [List.splitOn_cons_eq_if_modifyHead, List.count_cons]
      split
      · rw [List.length_cons, ih]
      · rw [List.length_modifyHead, ih]
  rw [pieces, List.length_map, hlists]

/-- Joined parts are cut at the character between them and wherever it stands in one of them. -/
theorem length_pieces_intercalate (h : parts ≠ []) :
    (pieces c ((String.singleton c).intercalate parts)).length =
      parts.length + total (parts.map fun part => part.toList.count c) := by
  rw [length_pieces]
  induction parts with
  | nil => exact absurd rfl h
  | cons part rest ih =>
    cases rest with
    | nil => simp [total, Nat.add_comm]
    | cons next rest =>
      have hrest := ih (List.cons_ne_nil _ _)
      have hsep : (String.singleton c).toList.count c = 1 := by simp
      have htotal : total ((part :: next :: rest).map fun part => part.toList.count c) =
          part.toList.count c + total ((next :: rest).map fun part => part.toList.count c) :=
        rfl
      rw [String.intercalate_cons_cons, String.toList_append, String.toList_append,
        List.count_append, List.count_append, htotal, List.length_cons]
      omega

end Text

namespace Report

open Time

/-- A text that stays within its cell and its line: it has no bar and no line feed. -/
def IsInline (s : String) : Prop :=
  '|' ∉ s.toList ∧ '\n' ∉ s.toList

instance (s : String) : Decidable (IsInline s) :=
  inferInstanceAs (Decidable (_ ∧ _))

@[simp]
theorem isInline_append {s t : String} : IsInline (s ++ t) ↔ IsInline s ∧ IsInline t := by
  simp only [IsInline, String.toList_append, List.mem_append, not_or]
  exact and_and_and_comm

theorem isInline_ofList_of_isDigit {cs : List Char} (h : ∀ c ∈ cs, c.isDigit = true) :
    IsInline (String.ofList cs) := by
  constructor
  · intro hbar
    exact absurd (h _ (by simpa using hbar)) (by decide)
  · intro hfeed
    exact absurd (h _ (by simpa using hfeed)) (by decide)

theorem isDigit_of_mem_leftpad {width n : Nat} {c : Char}
    (h : c ∈ (Nat.toDigits 10 n).leftpad width '0') : c.isDigit = true := by
  rcases List.mem_append.1 h with h | h
  · rw [List.eq_of_mem_replicate h]
    rfl
  · exact Nat.isDigit_of_mem_toDigits (by decide) (by decide) h

theorem isInline_toString (n : Nat) : IsInline (toString n) := by
  have htext : toString n = String.ofList (Nat.toDigits 10 n) := by
    rw [← String.toList_inj, String.toList_ofList]
    exact Nat.toList_repr
  rw [htext]
  exact isInline_ofList_of_isDigit fun c hc =>
    Nat.isDigit_of_mem_toDigits (by decide) (by decide) hc

theorem isInline_fixed (places : Nat) (x : Float) : IsInline (Number.fixed places x) := by
  have hplaces : ∀ n, IsInline (Number.fixedPlaces places n) := by
    intro n
    have htake : ∀ length, IsInline
        (String.ofList (((Nat.toDigits 10 n).leftpad (places + 1) '0').take length)) :=
      fun length => isInline_ofList_of_isDigit fun c hc =>
        isDigit_of_mem_leftpad (List.mem_of_mem_take hc)
    have hdrop : ∀ length, IsInline
        (String.ofList (((Nat.toDigits 10 n).leftpad (places + 1) '0').drop length)) :=
      fun length => isInline_ofList_of_isDigit fun c hc =>
        isDigit_of_mem_leftpad (List.mem_of_mem_drop hc)
    unfold Number.fixedPlaces
    dsimp only
    split
    · exact htake _
    · simp only [isInline_append]
      exact ⟨⟨htake _, by decide⟩, hdrop _⟩
  unfold Number.fixed
  split
  · decide
  · split <;> decide
  · refine isInline_append.2 ⟨?_, hplaces _⟩
    split <;> decide

theorem isInline_percent (rate : Option Float) : IsInline (percent rate) := by
  cases rate with
  | none => decide
  | some x => exact isInline_append.2 ⟨isInline_fixed 1 x, by decide⟩

theorem isInline_duration (seconds : Option Float) : IsInline (duration seconds) := by
  have hunit : ∀ (places : Nat) (x : Float), ∀ unit ∈ ["s", "m", "h", "d"],
      IsInline (Number.fixed places x ++ unit) := by
    intro places x unit hunit
    refine isInline_append.2 ⟨isInline_fixed places x, ?_⟩
    revert unit
    decide
  cases seconds with
  | none => decide
  | some x =>
    unfold duration
    dsimp only
    split
    · exact hunit _ _ _ (by decide)
    · split
      · exact hunit _ _ _ (by decide)
      · split
        · exact hunit _ _ _ (by decide)
        · exact hunit _ _ _ (by decide)

theorem isInline_sessions (count : Option Float) : IsInline (sessions count) := by
  cases count with
  | none => decide
  | some x => exact isInline_fixed 2 x

theorem isInline_minuteText (t : Instant) : IsInline t.minuteText := by
  have hpadded : ∀ width n, IsInline (padded width n) := fun width n =>
    isInline_ofList_of_isDigit fun c hc => isDigit_of_mem_leftpad hc
  have hyear : ∀ year, IsInline (yearText year) := by
    intro year
    unfold yearText
    split
    · exact hpadded _ _
    · refine isInline_append.2 ⟨?_, hpadded _ _⟩
      split <;> decide
  simp only [Instant.minuteText, Date.text, isInline_append, hpadded, hyear, true_and, and_true]
  decide

variable {cells : List String}

/-- What stands between the bars of a table's line: nothing outside of the outer ones, and the cells
with a space on both sides. -/
def framed (cells : List String) : List String :=
  "" :: cells.map (fun cell => " " ++ cell ++ " ") ++ [""]

theorem framed_ne_nil (cells : List String) : framed cells ≠ [] :=
  List.cons_ne_nil _ _

theorem tableLine_eq (h : cells ≠ []) :
    tableLine cells = (String.singleton '|').intercalate (framed cells) := by
  have hcells : " " ++ " | ".intercalate cells ++ " |" =
      (String.singleton '|').intercalate
        (cells.map (fun cell => " " ++ cell ++ " ") ++ [""]) := by
    induction cells with
    | nil => exact absurd rfl h
    | cons cell rest ih =>
      have hne : rest.map (fun cell => " " ++ cell ++ " ") ++ [""] ≠ [] := by simp
      rw [List.map_cons, List.cons_append, String.intercalate_cons_of_ne_nil hne]
      cases rest with
      | nil => simp [← String.toList_inj]
      | cons next rest =>
        rw [← ih (List.cons_ne_nil _ _), String.intercalate_cons_cons]
        simp [← String.toList_inj]
  have hne : cells.map (fun cell => " " ++ cell ++ " ") ++ [""] ≠ [] := by simp
  rw [framed, List.cons_append, String.intercalate_cons_of_ne_nil hne, ← hcells, tableLine]
  simp [← String.toList_inj]

/-- The line of a table is cut into its cells unless one of them has a bar. -/
theorem pieces_tableLine_eq_iff (h : cells ≠ []) :
    Text.pieces '|' (tableLine cells) = framed cells ↔ ∀ cell ∈ cells, '|' ∉ cell.toList := by
  rw [tableLine_eq h, Text.pieces_intercalate_eq_iff (framed_ne_nil cells)]
  simp only [framed, List.cons_append, List.forall_mem_cons, List.forall_mem_append,
    List.forall_mem_map]
  simp

/-- Every bar in a cell makes a piece more. -/
theorem length_pieces_tableLine (h : cells ≠ []) :
    (Text.pieces '|' (tableLine cells)).length =
      cells.length + 2 + total (cells.map fun cell => cell.toList.count '|') := by
  have hcount : ∀ cell : String,
      (" " ++ cell ++ " ").toList.count '|' = cell.toList.count '|' := by
    intro cell
    simp
  have hempty : "".toList.count '|' = 0 := rfl
  rw [tableLine_eq h, Text.length_pieces_intercalate (framed_ne_nil cells), framed]
  simp only [List.cons_append, List.map_cons, List.map_append, List.map_map, List.map_nil,
    List.length_cons, List.length_append, List.length_map, List.length_nil, total,
    List.foldr_cons, List.foldr_append, List.foldr_nil, Function.comp_def, hcount, hempty,
    Nat.zero_add]

/-- A report is cut into its lines, and an empty text behind the last line feed, unless one of them
has a line feed. -/
theorem pieces_text_eq_iff {funnelName : String} {runAt : Option Instant} {metrics : List Metric} :
    Text.pieces '\n' (text funnelName runAt metrics) = lines funnelName runAt metrics ++ [""] ↔
      ∀ line ∈ lines funnelName runAt metrics, '\n' ∉ line.toList := by
  have hjoin : ∀ lines : List String, String.join (lines.map (· ++ "\n")) =
      (String.singleton '\n').intercalate (lines ++ [""]) := by
    intro lines
    induction lines with
    | nil => rfl
    | cons line rest ih =>
      rw [List.map_cons, String.join_cons, ih, List.cons_append,
        String.intercalate_cons_of_ne_nil (by simp)]
      rfl
  rw [text, hjoin, Text.pieces_intercalate_eq_iff (by simp)]
  simp only [List.forall_mem_append, List.forall_mem_singleton]
  simp

end Report

end Funnel
