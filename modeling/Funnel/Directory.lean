import Funnel.Text.File

/-!
# Files in memory

A directory of files in memory. Of the directories outside of it nothing is known but that they are
there.
-/

namespace Funnel

open Text (FileError)

/-- A directory of files without subdirectories. -/
abbrev Directory := List (String × String)

namespace Directory

/-- The most bytes that the name of a file may have. -/
def maxNameSize : Nat := 255

def maxPathSize : Nat := 4095

/-- A directory that a path may pass. -/
inductive Place
  | inside
  | outside
deriving DecidableEq, Repr

/-- A path taken apart: where it starts, its names, and whether it ends with a slash. -/
structure Path where
  start : Place
  names : List String
  slash : Bool
deriving DecidableEq, Repr

def Path.ofText (s : String) : Except FileError Path := do
  if s.contains '\x00' then throw .nulInName
  if s.isEmpty then throw .notFound
  if maxPathSize < s.utf8ByteSize then throw .nameTooLong
  return {
    start := if s.startsWith "/" then .outside else .inside
    names := (s.splitOn "/").filter (· ≠ "")
    slash := s.endsWith "/" }

/-- What a path leads to. A name that is missing in the directory itself is kept. -/
inductive Target
  | directory (place : Place)
  | file (name contents : String)
  | missing (name : Option String)
deriving DecidableEq, Repr

def find (files : Directory) (place : Place) (name : String) : Except FileError Target :=
  if name = "." then .ok (.directory place)
  else if name = ".." then .ok (.directory .outside)
  else if maxNameSize < name.utf8ByteSize then .error .nameTooLong
  else
    match place with
    | .outside => .ok (.missing none)
    | .inside =>
      match files.lookup name with
      | some contents => .ok (.file name contents)
      | none => .ok (.missing (some name))

/-- What some names lead to from a place. Each but the last has to be that of a directory. -/
def walk (files : Directory) (place : Place) : List String → Except FileError Target
  | [] => .ok (.directory place)
  | [name] => files.find place name
  | name :: names => do
    match ← files.find place name with
    | .directory next => files.walk next names
    | .file .. => throw .notDirectory
    | .missing _ => throw .notFound

/-- The contents of the file at a path. A slash at the end asks for a directory. -/
def read (files : Directory) (path : String) : Except FileError String := do
  let path ← Path.ofText path
  match ← files.walk path.start path.names with
  | .directory _ => throw .isDirectory
  | .file _ contents => if path.slash then throw .notDirectory else return contents
  | .missing _ => throw .notFound

/-- The directory after some contents have been written to a path, and the name of the file, unless
it lies outside. A slash at the end asks for a directory whatever the last name stands for. -/
def write (files : Directory) (path contents : String) :
    Except FileError (Option String × Directory) := do
  let path ← Path.ofText path
  let names := if path.slash then path.names.dropLast ++ ["."] else path.names
  let put name := (some name, (name, contents) :: files.filter fun file => file.1 ≠ name)
  match ← files.walk path.start names with
  | .directory _ => throw .isDirectory
  | .file name _ => return put name
  | .missing (some name) => return put name
  | .missing none => return (none, files)

end Directory

end Funnel
