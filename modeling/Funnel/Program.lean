import Funnel.Store.Statement
import Funnel.Text.File

/-!
# Programs

A program asks its surroundings for what it cannot know, one request after the other, and decides by
their answers how to go on. It is a value: what it asks for can be read off it without anything
happening.
-/

namespace Funnel

/-- Why there is no connection to a store. -/
inductive ConnectError
  | addressMissing
  | unreachable (reason : String)
deriving DecidableEq, Repr

/-- Something that a program asks of its surroundings. -/
inductive Request
  | readFile (path : String)
  | writeFile (path contents : String)
  | print (text : String)
  | freshId
  | currentTime
  | connect
  | execute (statement : Store.Statement)

def Request.Answer : Request → Type
  | readFile _ => Except Text.FileError String
  | writeFile .. => Except Text.FileError Unit
  | print _ => Unit
  | freshId => String
  | currentTime => Time.Instant
  | connect => Except ConnectError Unit
  | execute statement => Except Store.StoreError statement.Answer

/-- A program: its result, or a request and how it goes on with the answer. -/
inductive Program (α : Type) : Type
  | done (result : α) : Program α
  | ask (request : Request) (next : request.Answer → Program α) : Program α

namespace Program

variable {α β : Type}

def bind : Program α → (α → Program β) → Program β
  | done result, f => f result
  | ask request next, f => ask request fun answer => (next answer).bind f

instance : Monad Program where
  pure := done
  bind := bind

instance : LawfulMonad Program := LawfulMonad.mk' Program
  (fun p => by
    induction p with
    | done _ => rfl
    | ask request _ ih => exact congrArg (ask request) (funext ih))
  (fun _ _ => rfl)
  (fun p _ _ => by
    induction p with
    | done _ => rfl
    | ask request _ ih => exact congrArg (ask request) (funext ih))

end Program

/-- Why a program failed, and what caused it, the nearest cause first. -/
structure Failure where
  message : String
  causes : List String := []
deriving DecidableEq, Repr

namespace Failure

/-- A text in lines of which each starts with blanks, the first after what precedes it. -/
def indented (first blanks s : String) : String :=
  first ++ ("\n" ++ blanks).intercalate (s.splitOn "\n")

/-- The causes of a failure in lines: a single one indented, several of them numbered. -/
def causeTexts : List String → List String
  | [cause] => [indented "    " "    " cause]
  | causes => causes.zipIdx.map fun (cause, n) =>
    indented (String.ofList ((Nat.toDigits 10 n).leftpad 5 ' ') ++ ": ") "       " cause

def text (failure : Failure) : String :=
  "Error: " ++ failure.message ++
    (if failure.causes.isEmpty then ""
      else "\n\nCaused by:\n" ++ "\n".intercalate (causeTexts failure.causes)) ++
    "\n"

end Failure

/-- How a program ends before its time: it failed, or it left the range of what can be computed. -/
inductive Abort
  | failed (failure : Failure)
  | crashed
deriving DecidableEq, Repr

/-- A program that may end before its time. -/
abbrev Action := ExceptT Abort Program

namespace Action

def perform (request : Request) : Action request.Answer :=
  ExceptT.lift (.ask request .done)

def fail {α : Type} (failure : Failure) : Action α :=
  throw (.failed failure)

/-- A value, or the failure that an error amounts to. -/
def expect {ε α : Type} (failure : ε → Failure) : Except ε α → Action α
  | .ok value => pure value
  | .error error => fail (failure error)

/-- The contents of a file, or why there are none. -/
def readFile (path : String) : Action (Except Text.FileError String) :=
  perform (.readFile path)

def writeFile (path contents : String) : Action (Except Text.FileError Unit) :=
  perform (.writeFile path contents)

/-- An identifier that nothing else has. -/
def freshId : Action String :=
  perform .freshId

def currentTime : Action Time.Instant :=
  perform .currentTime

def print (text : String) : Action Unit :=
  perform (.print text)

def connect : Action Unit := do
  expect (fun
    | .addressMissing =>
      ⟨"DATABASE_URL must be set to a Postgres instance", ["environment variable not found"]⟩
    | .unreachable reason => ⟨"failed to connect to Postgres", [reason]⟩)
    (← perform .connect)

/-- A refusal of the store as a failure of its own. -/
def refusal (error : Store.StoreError) : Failure :=
  ⟨error.message, [error.reason]⟩

/-- A refusal of the store as what caused a failure. -/
def refusalOf (message : String) (error : Store.StoreError) : Failure :=
  ⟨message, [error.message, error.reason]⟩

/-- Has a statement executed; a refusal is a failure. -/
def execute (statement : Store.Statement) (failure : Store.StoreError → Failure := refusal) :
    Action statement.Answer := do
  expect failure (← perform (.execute statement))

end Action

end Funnel
