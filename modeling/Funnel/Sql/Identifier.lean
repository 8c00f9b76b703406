namespace Funnel.Sql

def isWordStart (c : Char) : Bool :=
  c.isAlpha || c == '_'

/-- A character that a word may go on with. -/
def isWordChar (c : Char) : Bool :=
  c.isAlphanum || c == '_'

/-- A plain name. -/
def isWord : List Char → Bool
  | [] => false
  | c :: cs => isWordStart c && cs.all isWordChar

/-- A plain name, or a schema and a name with a point between. -/
def isIdentifier (s : String) : Bool :=
  let parts := s.toList.splitOn '.'
  parts.length ≤ 2 && parts.all isWord

/-- An identifier without a schema. -/
def isUnqualified (s : String) : Bool :=
  isIdentifier s && !s.toList.contains '.'

end Funnel.Sql
