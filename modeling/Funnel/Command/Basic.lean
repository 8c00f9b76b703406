namespace Funnel

/-- Something that the program can be told to do. -/
inductive Command
  | initDb
  | seed
  | importEvents (csv : String)
  | validate (config : String)
  | run (config : String) (sinceDays : Option Int64) (dryRun : Bool)
  | report (config out : String)
deriving DecidableEq

/-- A kind of command. -/
inductive Verb
  | initDb
  | seed
  | importEvents
  | validate
  | run
  | report
deriving DecidableEq

/-- What an option takes: a path, a number of days, or nothing. -/
inductive OptionKind
  | path
  | days
  | switch
deriving DecidableEq

/-- The value of an option. -/
inductive OptionValue
  | path (s : String)
  | days (n : Int64)
  | on
deriving DecidableEq

abbrev Given := List (String × OptionValue)

namespace Given

def path? (given : Given) (name : String) : Option String :=
  match given.lookup name with
  | some (.path s) => some s
  | _ => none

def days? (given : Given) (name : String) : Option Int64 :=
  match given.lookup name with
  | some (.days n) => some n
  | _ => none

def has (given : Given) (name : String) : Bool :=
  (given.lookup name).isSome

end Given

namespace Verb

def all : List Verb :=
  [initDb, seed, importEvents, validate, run, report]

def name : Verb → String
  | initDb => "init-db"
  | seed => "seed"
  | importEvents => "import"
  | validate => "validate"
  | run => "run"
  | report => "report"

def ofName? (s : String) : Option Verb :=
  all.find? fun verb => verb.name == s

def options : Verb → List (String × OptionKind)
  | initDb => []
  | seed => []
  | importEvents => [("csv", .path)]
  | validate => [("config", .path)]
  | run => [("config", .path), ("since-days", .days), ("dry-run", .switch)]
  | report => [("config", .path), ("out", .path)]

/-- The command of a verb with some options, if none is missing that has to be there. -/
def command? (given : Given) : Verb → Option Command
  | initDb => some .initDb
  | seed => some .seed
  | importEvents => (given.path? "csv").map .importEvents
  | validate => (given.path? "config").map .validate
  | run => (given.path? "config").map fun config =>
      .run config (given.days? "since-days") (given.has "dry-run")
  | report => (given.path? "config").map fun config =>
      .report config ((given.path? "out").getD "report.md")

end Verb

def optionUsage (name : String) : OptionKind → String
  | .path => "--" ++ name ++ " <" ++ name.toUpper ++ ">"
  | .days => "--" ++ name ++ " <DAYS>"
  | .switch => "--" ++ name

/-- The commands and their options in words, a line for each command. -/
def Command.usage : String :=
  "Multi-step conversion funnels from raw event logs\n\nCommands:\n" ++
    String.join (Verb.all.map fun verb =>
      "  " ++ " ".intercalate (verb.name :: verb.options.map fun (name, kind) =>
        optionUsage name kind) ++ "\n") ++
    "  help\n"

/-- A list of arguments asks for help, or for nothing there is. -/
inductive NoCommand
  | help
  | misuse
deriving DecidableEq

/-- Digits with a sign or without, as a number of 64 bits. -/
def readDays? (s : String) : Option Int64 :=
  let (negative, digits) := match s.toList with
    | '-' :: digits => (true, digits)
    | '+' :: digits => (false, digits)
    | digits => (false, digits)
  if digits.isEmpty || !digits.all Char.isDigit then none
  else
    let n : Int := digits.foldl (fun n c => 10 * n + (c.toNat - '0'.toNat)) 0
    let signed := if negative then -n else n
    if Int64.minValue.toInt ≤ signed ∧ signed ≤ Int64.maxValue.toInt then some (.ofInt signed)
    else none

/-- The value that a text is for an option. No path is empty. -/
def OptionKind.read? (s : String) : OptionKind → Option OptionValue
  | .path => if s.isEmpty then none else some (.path s)
  | .days => (readDays? s).map .days
  | .switch => none

/-- What an argument is: the name of an option, with a value behind an equals sign or without; the
end of options; letters behind a single dash; or a plain word, which a dash alone is too. -/
inductive Argument
  | option (name : String) (value : Option String)
  | endOfOptions
  | letters (letters : List Char)
  | word (s : String)
deriving DecidableEq

def Argument.ofText (s : String) : Argument :=
  match s.toList with
  | ['-', '-'] => .endOfOptions
  | '-' :: '-' :: rest =>
    let name := String.ofList (rest.takeWhile (· ≠ '='))
    match rest.dropWhile (· ≠ '=') with
    | [] => .option name none
    | _ :: value => .option name (some (String.ofList value))
  | '-' :: c :: rest => .letters (c :: rest)
  | _ => .word s

/-- Adds an option, which must not have been given before. -/
def Given.add (given : Given) (name : String) (value : Option OptionValue) :
    Except NoCommand Given :=
  match value with
  | some value => if given.has name then .error .misuse else .ok ((name, value) :: given)
  | none => .error .misuse

/-- Reads options one after the other. A value is the next argument if that is a word, or stands
behind an equals sign; `--help` and `-h` ask for help unless something before them is wrong. -/
def Given.ofArgs (options : List (String × OptionKind)) (given : Given) :
    List String → Except NoCommand Given
  | [] => .ok given
  | arg :: args =>
    match Argument.ofText arg with
    | .endOfOptions => if args.isEmpty then .ok given else .error .misuse
    | .letters letters => .error (if letters.head? = some 'h' then .help else .misuse)
    | .word _ => .error .misuse
    | .option "help" none => .error .help
    | .option name value =>
      match options.lookup name, value, args with
      | none, _, _ => .error .misuse
      | some .switch, none, args => do
        Given.ofArgs options (← given.add name (some .on)) args
      | some kind, some value, args => do
        Given.ofArgs options (← given.add name (kind.read? value)) args
      | some _, none, [] => .error .misuse
      | some kind, none, value :: args =>
        match Argument.ofText value with
        | .word value => do Given.ofArgs options (← given.add name (kind.read? value)) args
        | _ => .error .misuse

/-- What is asked for behind the word `help`: help, about a command or in general. -/
def helpOn : List String → NoCommand
  | [] => .help
  | [name] => if (Verb.ofName? name).isSome ∨ name = "help" then .help else .misuse
  | _ => .misuse

/-- The command that a list of arguments asks for. -/
def Command.ofArgs : List String → Except NoCommand Command
  | [] => .error .misuse
  | arg :: args =>
    match Argument.ofText arg with
    | .option "help" none => .error .help
    | .letters letters => .error (if letters.head? = some 'h' then .help else .misuse)
    | .word "help" => .error (helpOn args)
    | .word name =>
      match Verb.ofName? name with
      | none => .error .misuse
      | some verb => do
        let given ← Given.ofArgs verb.options [] args
        match verb.command? given with
        | some command => return command
        | none => throw .misuse
    | _ => .error .misuse

end Funnel
