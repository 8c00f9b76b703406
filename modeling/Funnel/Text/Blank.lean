namespace Funnel.Text

/-- A character of Unicode's `White_Space` property. -/
def isBlankChar (c : Char) : Bool :=
  let n := c.toNat
  (9 ≤ n && n ≤ 13) || n == 32 || n == 0x85 || n == 0xA0 || n == 0x1680 ||
    (0x2000 ≤ n && n ≤ 0x200A) || n == 0x2028 || n == 0x2029 || n == 0x202F || n == 0x205F ||
    n == 0x3000

/-- A text without the blank characters it starts with. -/
def trimStart (cs : List Char) : List Char :=
  cs.dropWhile isBlankChar

/-- A text without the blank characters it starts and ends with. -/
def trim (s : String) : String :=
  String.ofList (trimStart (trimStart s.toList).reverse).reverse

/-- A text of blank characters only; the empty text is one. -/
def isBlank (s : String) : Bool :=
  s.toList.all isBlankChar

/-- The words of a text: its longest parts without a blank character. -/
def words (cs : List Char) : List (List Char) :=
  (cs.splitBy fun a b => isBlankChar a == isBlankChar b).filter fun run => !run.any isBlankChar

/-- The words of a text with one space between any two. -/
def squeeze (s : String) : String :=
  " ".intercalate ((words s.toList).map String.ofList)

end Funnel.Text
