namespace Funnel.Csv

/-- Where in a record a text is: between two records, at the start of a field, inside a field,
inside quotes, or behind a quote that may close them or be the first of two. -/
inductive Position
  | betweenRecords
  | fieldStart
  | inField
  | inQuotes
  | behindQuote
deriving DecidableEq, Repr

def isLineEnd (c : Char) : Bool :=
  c = '\n' || c = '\r'

/-- Puts a character in front of the first field of the first record. -/
def consChar (c : Char) : List (List (List Char)) → List (List (List Char))
  | (field :: fields) :: records => ((c :: field) :: fields) :: records
  | [] :: records => [[c]] :: records
  | [] => [[[c]]]

/-- Puts an empty field in front of the first record. -/
def consField : List (List (List Char)) → List (List (List Char))
  | record :: records => ([] :: record) :: records
  | [] => [[[]]]

/-- What follows a position: the rest of its field and of its record, then the other records. An
empty line is no record. Text behind a closing quote belongs to the field, and quotes that are not
closed end with the text. -/
def split : Position → List Char → List (List (List Char))
  | .betweenRecords, [] => []
  | _, [] => [[[]]]
  | .betweenRecords, c :: cs =>
    if isLineEnd c then split .betweenRecords cs
    else if c = '"' then split .inQuotes cs
    else if c = ',' then consField (split .fieldStart cs)
    else consChar c (split .inField cs)
  | .inQuotes, c :: cs =>
    if c = '"' then split .behindQuote cs else consChar c (split .inQuotes cs)
  | position, c :: cs =>
    if c = '"' ∧ position = .fieldStart then split .inQuotes cs
    else if c = '"' ∧ position = .behindQuote then consChar c (split .inQuotes cs)
    else if c = ',' then consField (split .fieldStart cs)
    else if isLineEnd c then [[]] :: split .betweenRecords cs
    else consChar c (split .inField cs)

/-- A text without the mark of byte order that it may start with. -/
def withoutMark : List Char → List Char
  | '\ufeff' :: cs => cs
  | cs => cs

/-- The records of a text, each as its fields. -/
def records (s : String) : List (List String) :=
  (split .betweenRecords (withoutMark s.toList)).map fun record => record.map String.ofList

/-- Records under a header that names their fields. -/
structure Table where
  header : List String
  rows : List (List String)

/-- The records of a text behind the first one, which is the header. -/
def Table.ofText (s : String) : Table :=
  match records s with
  | [] => ⟨[], []⟩
  | header :: rows => ⟨header, rows⟩

/-- Why a field cannot be had by its name. -/
inductive FieldError
  | missing
  | repeated
deriving DecidableEq, Repr

/-- The field of a row under a name of the header: the only one, or none. -/
def field? (header row : List String) (name : String) : Except FieldError (Option String) :=
  match (header.zip row).filter fun cell => cell.1 == name with
  | [] => .ok none
  | [cell] => .ok (some cell.2)
  | _ => .error .repeated

def field (header row : List String) (name : String) : Except FieldError String := do
  match ← field? header row name with
  | some value => return value
  | none => throw .missing

/-- A field that is absent where it is empty or has no column. -/
def optionalField (header row : List String) (name : String) :
    Except FieldError (Option String) := do
  return (← field? header row name).filter fun value => !value.isEmpty

end Funnel.Csv
