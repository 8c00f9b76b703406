import Funnel.Json.Basic
import Mathlib.Data.List.Forall2

/-!
# The texts of JSON values

A value is written as a sequence of tokens with white space between them, a string in many ways.
Numbers with a fraction or an exponent have no texts here, so that everything is read without
rounding.
-/

namespace Funnel.Json

/-- A part of a JSON text that white space does not divide. -/
inductive Token
  | arrayStart
  | arrayEnd
  | objectStart
  | objectEnd
  | colon
  | comma
  | null
  | bool (b : Bool)
  | integer (n : Int)
  | float (x : Float)
  | string (s : String)

mutual

/-- The tokens of a value. -/
def tokens : Json → List Token
  | null => [.null]
  | bool b => [.bool b]
  | integer n => [.integer n]
  | float x => [.float x]
  | string s => [.string s]
  | array items => .arrayStart :: ([.comma].intercalate (itemTokens items) ++ [.arrayEnd])
  | object members =>
    .objectStart :: ([.comma].intercalate (memberTokens members) ++ [.objectEnd])

/-- The tokens of each of some items. -/
def itemTokens : List Json → List (List Token)
  | [] => []
  | item :: rest => tokens item :: itemTokens rest

/-- The tokens of each of some members. -/
def memberTokens : List (String × Json) → List (List Token)
  | [] => []
  | (name, value) :: rest => (.string name :: .colon :: tokens value) :: memberTokens rest

end

theorem intercalate_comma_append (first second : List Token) (parts : List (List Token))
    (tokens : List Token) :
    [.comma].intercalate (first :: second :: parts) ++ tokens =
      first ++ .comma :: ([.comma].intercalate (second :: parts) ++ tokens) := by
  rw [List.intercalate_cons_cons, List.append_assoc, List.append_assoc, List.singleton_append]

theorem tokens_array_append (items : List Json) (tokens : List Token) :
    (array items).tokens ++ tokens =
      .arrayStart :: ([.comma].intercalate (itemTokens items) ++ .arrayEnd :: tokens) := by
  rw [Json.tokens, List.cons_append, List.append_assoc, List.singleton_append]

theorem tokens_object_append (members : List (String × Json)) (tokens : List Token) :
    (object members).tokens ++ tokens =
      .objectStart :: ([.comma].intercalate (memberTokens members) ++ .objectEnd :: tokens) := by
  rw [Json.tokens, List.cons_append, List.append_assoc, List.singleton_append]

/-- No value starts like the end of an array, and only null starts like null. -/
theorem exists_tokens_eq_cons (value : Json) :
    ∃ token others, value.tokens = token :: others ∧ token ≠ .arrayEnd ∧
      (token = .null → value = null) := by
  cases value with
  | null => exact ⟨_, _, rfl, nofun, fun _ => rfl⟩
  | _ => exact ⟨_, _, rfl, nofun, nofun⟩

theorem exists_itemTokens_eq_cons (item : Json) (items : List Json) :
    ∃ token others, [.comma].intercalate (itemTokens (item :: items)) = token :: others ∧
      token ≠ .arrayEnd := by
  obtain ⟨token, others, htokens, hne, -⟩ := item.exists_tokens_eq_cons
  cases items with
  | nil =>
    rw [itemTokens, itemTokens, List.intercalate_singleton, htokens]
    exact ⟨token, others, rfl, hne⟩
  | cons next items =>
    rw [itemTokens, itemTokens, List.intercalate_cons_cons, htokens]
    exact ⟨token, _, rfl, hne⟩

/-- An object starts with its first key. -/
theorem exists_memberTokens_eq_cons (name : String) (value : Json)
    (members : List (String × Json)) :
    ∃ others, [.comma].intercalate (memberTokens ((name, value) :: members)) =
      .string name :: others := by
  cases members with
  | nil => exact ⟨_, by rw [memberTokens, memberTokens, List.intercalate_singleton]⟩
  | cons next members =>
    rw [memberTokens, memberTokens, List.intercalate_cons_cons]
    exact ⟨_, rfl⟩

/-- The letters that stand for characters after a backslash. -/
def letterEscapes : List (Char × Char) :=
  [('"', '"'), ('\\', '\\'), ('/', '/'), ('b', '\x08'), ('f', '\x0c'), ('n', '\n'), ('r', '\r'),
    ('t', '\t')]

/-- A hexadecimal digit, in either case, and its value. -/
def IsHexDigit (n : Nat) (c : Char) : Prop :=
  n < 16 ∧ (c = n.digitChar ∨ c = n.digitChar.toUpper)

/-- Four hexadecimal digits, and the number they stand for. -/
inductive IsCodeUnit : Nat → List Char → Prop
  | digits {a b c d : Nat} {w x y z : Char} (ha : IsHexDigit a w) (hb : IsHexDigit b x)
      (hc : IsHexDigit c y) (hd : IsHexDigit d z) :
      IsCodeUnit (((a * 16 + b) * 16 + c) * 16 + d) [w, x, y, z]

/-- The ways to write a character in a string. -/
inductive IsCharText : Char → List Char → Prop
  /-- Quotes, backslashes and control characters cannot stand for themselves. -/
  | plain {c : Char} (hquote : c ≠ '"') (hslash : c ≠ '\\') (hcontrol : ' ' ≤ c) :
    IsCharText c [c]
  | letter {letter c : Char} (h : (letter, c) ∈ letterEscapes) : IsCharText c ['\\', letter]
  | unit {c : Char} {digits : List Char} (h : IsCodeUnit c.toNat digits) :
    IsCharText c ('\\' :: 'u' :: digits)
  /-- A character beyond the first 65536 is written as a surrogate pair. -/
  | pair {c : Char} {high low : Nat} {first second : List Char} (hhigh : high < 0x400)
      (hlow : low < 0x400) (hfirst : IsCodeUnit (0xD800 + high) first)
      (hsecond : IsCodeUnit (0xDC00 + low) second)
      (hc : c.toNat = 0x10000 + high * 0x400 + low) :
      IsCharText c (('\\' :: 'u' :: first) ++ ('\\' :: 'u' :: second))

/-- The text of a token with as few escapes as possible. -/
def Token.text : Token → String
  | arrayStart => "["
  | arrayEnd => "]"
  | objectStart => "\x7b"
  | objectEnd => "\x7d"
  | colon => ":"
  | comma => ","
  | null => "null"
  | bool b => if b then "true" else "false"
  | integer n => toString n
  | float x => Number.shortest x
  | string s => stringText s

/-- A token that is written in one way. -/
def Token.IsFixed : Token → Prop
  | float _ | string _ => False
  | _ => True

/-- The texts of a token. -/
inductive Token.IsText : Token → List Char → Prop
  | fixed {token : Token} (h : token.IsFixed) : IsText token token.text.toList
  | string {s : String} {parts : List (List Char)} (h : List.Forall₂ IsCharText s.toList parts) :
    IsText (.string s) ('"' :: (parts.flatten ++ ['"']))

/-- The characters that may stand between tokens. -/
def whiteSpace : List Char :=
  [' ', '\t', '\n', '\r']

def IsSpacing (cs : List Char) : Prop :=
  ∀ c ∈ cs, c ∈ whiteSpace

theorem isSpacing_nil : IsSpacing [] :=
  fun _ h => absurd h List.not_mem_nil

/-- A text of some tokens. -/
inductive Spells : List Token → List Char → Prop
  | nil {space : List Char} (hspace : IsSpacing space) : Spells [] space
  | cons {token : Token} {tokens : List Token} {space part rest : List Char}
      (hspace : IsSpacing space) (hpart : token.IsText part) (hrest : Spells tokens rest) :
      Spells (token :: tokens) (space ++ (part ++ rest))

/-- A text of a value. -/
def IsTextOf (value : Json) (s : String) : Prop :=
  Spells value.tokens s.toList

/-- The text of a value without white space. Members stay in their order. -/
def unspaced (value : Json) : String :=
  String.join (value.tokens.map Token.text)

theorem isHexDigit_digitChar {n : Nat} (h : n < 16) : IsHexDigit n n.digitChar :=
  ⟨h, .inl rfl⟩

theorem leftpad_toDigits : ∀ n < 32, (Nat.toDigits 16 n).leftpad 4 '0' =
    ['0', '0', (n / 16).digitChar, (n % 16).digitChar] := by
  decide

theorem isCodeUnit_leftpad_hex {n : Nat} (h : n < 32) :
    IsCodeUnit n ((Text.hex n).toList.leftpad 4 '0') := by
  have hzero : IsHexDigit 0 '0' := isHexDigit_digitChar (by decide)
  have hhigh : n / 16 < 16 := by omega
  have hlow : n % 16 < 16 := by omega
  have hunit := IsCodeUnit.digits hzero hzero (isHexDigit_digitChar hhigh)
    (isHexDigit_digitChar hlow)
  rw [Text.hex, String.toList_ofList, leftpad_toDigits n h]
  convert hunit using 1
  omega

theorem isCharText_of_letter {letter c : Char} {s : String} (hs : s.toList = ['\\', letter])
    (h : (letter, c) ∈ letterEscapes) : IsCharText c s.toList :=
  hs ▸ .letter h

theorem isCharText_escapeChar (c : Char) : IsCharText c (escapeChar c).toList := by
  unfold escapeChar
  split_ifs with hquote hslash hb ht hn hf hr hcontrol
  · exact isCharText_of_letter rfl (by rw [hquote]; decide)
  · exact isCharText_of_letter rfl (by rw [hslash]; decide)
  · exact isCharText_of_letter rfl (by rw [hb]; decide)
  · exact isCharText_of_letter rfl (by rw [ht]; decide)
  · exact isCharText_of_letter rfl (by rw [hn]; decide)
  · exact isCharText_of_letter rfl (by rw [hf]; decide)
  · exact isCharText_of_letter rfl (by rw [hr]; decide)
  · rw [String.toList_append, String.toList_ofList, String.toList_ofList]
    exact .unit (isCodeUnit_leftpad_hex hcontrol)
  · have hc : c.toString.toList = [c] := by simp
    rw [hc]
    exact .plain hquote hslash (UInt32.le_iff_toNat_le.2 (Nat.le_of_not_lt hcontrol))

theorem isText_text {token : Token} (h : ∀ x, token ≠ .float x) :
    token.IsText token.text.toList := by
  cases token with
  | string s =>
    have hparts : List.Forall₂ IsCharText s.toList (s.toList.map fun c => (escapeChar c).toList) :=
      List.forall₂_map_right_iff.2 (List.forall₂_same.2 fun c _ => isCharText_escapeChar c)
    have htext : (Token.text (.string s)).toList =
        '"' :: ((s.toList.map fun c => (escapeChar c).toList).flatten ++ ['"']) := by
      simp [Token.text, stringText, String.toList_join, List.flatMap_def, Function.comp_def]
    rw [htext]
    exact .string hparts
  | float x => exact absurd rfl (h x)
  | _ => exact .fixed trivial

theorem spells_text {tokens : List Token} (h : ∀ x, Token.float x ∉ tokens) :
    Spells tokens (String.join (tokens.map Token.text)).toList := by
  induction tokens with
  | nil => exact .nil isSpacing_nil
  | cons token tokens ih =>
    have htoken : ∀ x, token ≠ .float x := fun x hx => h x (by simp [hx])
    have hrest : ∀ x, Token.float x ∉ tokens := fun x hx => h x (List.mem_cons_of_mem _ hx)
    rw [List.map_cons, String.join_cons, String.toList_append]
    exact .cons isSpacing_nil (isText_text htoken) (ih hrest)

theorem isTextOf_unspaced {value : Json} (h : ∀ x, Token.float x ∉ value.tokens) :
    value.IsTextOf value.unspaced :=
  spells_text h

theorem mem_intercalate_comma {token : Token} {parts : List (List Token)}
    (h : token ∈ [.comma].intercalate parts) : token = .comma ∨ ∃ part ∈ parts, token ∈ part := by
  induction parts with
  | nil => cases h
  | cons part parts ih =>
    cases parts with
    | nil =>
      rw [List.intercalate_singleton] at h
      exact .inr ⟨part, List.mem_singleton_self _, h⟩
    | cons next parts =>
      rw [List.intercalate_cons_cons, List.mem_append, List.mem_append, List.mem_singleton] at h
      rcases h with (h | h) | h
      · exact .inr ⟨part, List.mem_cons_self .., h⟩
      · exact .inl h
      · rcases ih h with hcomma | ⟨other, hother, htoken⟩
        · exact .inl hcomma
        · exact .inr ⟨other, List.mem_cons_of_mem _ hother, htoken⟩

theorem itemTokens_eq_map (items : List Json) : itemTokens items = items.map tokens := by
  induction items with
  | nil => rfl
  | cons item items ih => rw [itemTokens, ih, List.map_cons]

theorem memberTokens_eq_map (members : List (String × Json)) :
    memberTokens members =
      members.map fun member => .string member.1 :: .colon :: member.2.tokens := by
  induction members with
  | nil => rfl
  | cons member members ih =>
    obtain ⟨name, value⟩ := member
    rw [memberTokens, ih, List.map_cons]

theorem float_not_mem_null {x : Float} : .float x ∉ null.tokens := by
  simp [tokens]

theorem float_not_mem_bool {x : Float} {b : Bool} : .float x ∉ (bool b).tokens := by
  simp [tokens]

theorem float_not_mem_integer {x : Float} {n : Int} : .float x ∉ (integer n).tokens := by
  simp [tokens]

theorem float_not_mem_string {x : Float} {s : String} : .float x ∉ (string s).tokens := by
  simp [tokens]

theorem float_not_mem_array {x : Float} {items : List Json}
    (h : ∀ item ∈ items, .float x ∉ item.tokens) : .float x ∉ (array items).tokens := by
  rw [tokens, itemTokens_eq_map]
  intro hmem
  rcases List.mem_append.1 ((List.mem_cons.1 hmem).resolve_left nofun) with hmem | hmem
  · obtain ⟨part, hpart, hx⟩ := (mem_intercalate_comma hmem).resolve_left nofun
    obtain ⟨item, hitem, rfl⟩ := List.mem_map.1 hpart
    exact h item hitem hx
  · cases List.mem_singleton.1 hmem

theorem float_not_mem_object {x : Float} {members : List (String × Json)}
    (h : ∀ member ∈ members, .float x ∉ member.2.tokens) : .float x ∉ (object members).tokens := by
  rw [tokens, memberTokens_eq_map]
  intro hmem
  rcases List.mem_append.1 ((List.mem_cons.1 hmem).resolve_left nofun) with hmem | hmem
  · obtain ⟨part, hpart, hx⟩ := (mem_intercalate_comma hmem).resolve_left nofun
    obtain ⟨member, hmember, rfl⟩ := List.mem_map.1 hpart
    exact h member hmember (by simpa using hx)
  · cases List.mem_singleton.1 hmem

end Funnel.Json
