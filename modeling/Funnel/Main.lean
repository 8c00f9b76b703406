import Std.Time.DateTime.Timestamp
import Funnel.Command.Run
import Funnel.Text.Identifier

/-!
# The command line

Carries out the program of a list of arguments: files and texts are those of the system, and the
status is that of the program's ending. No store can be reached from here.
-/

namespace Funnel

/-- The number of an error of the system, which may be given as its negative. -/
def errorNumber (code : UInt32) : UInt32 :=
  min code (0 - code)

def fileError : IO.Error → Text.FileError
  | .noFileOrDirectory .. => .notFound
  | .inappropriateType _ code text =>
    match errorNumber code with
    | 20 => .notDirectory
    | 21 => .isDirectory
    | _ => .other text
  | .invalidArgument _ code text => if errorNumber code = 36 then .nameTooLong else .other text
  | error => .other (toString error)

def systemTime : IO Time.Instant := do
  return .ofNanos (← Std.Time.Timestamp.now).toNanosecondsSinceUnixEpoch.val

def unreachableReason : String := "no transport to a store is available"

def Request.answer : (request : Request) → IO request.Answer
  | readFile path => do
    try return Text.textOfBytes (← IO.FS.readBinFile path)
    catch error => return .error (fileError error)
  | writeFile path contents => do
    try return .ok (← IO.FS.writeFile path contents)
    catch error => return .error (fileError error)
  | print text => do
    IO.print text
    (← IO.getStdout).flush
  | freshId => return Text.identifierOfBytes (← IO.getRandomBytes 16).toList
  | currentTime => systemTime
  | connect => do
    match ← IO.getEnv "DATABASE_URL" with
    | none => return .error .addressMissing
    | some _ => return .error (.unreachable unreachableReason)
  | execute _ => return .error ⟨unreachableReason⟩

/-- Carries out a program. -/
def Program.carryOut {α : Type} : Program α → IO α
  | done result => return result
  | ask request next => do
    (next (← request.answer)).carryOut

def Ending.tell : Ending → IO Unit
  | success => return
  | failure error => IO.eprint error.text
  | crash => IO.eprintln "the window starts outside the calendar"
  | help => IO.print Command.usage
  | misuse => IO.eprint Command.usage

end Funnel

def main (args : List String) : IO UInt32 := do
  let ending ← (Funnel.Command.program args).carryOut
  ending.tell
  return ending.status.toUInt32
