import Funnel.Json.Punctuation

/-!
# Reading JSON values

Reads a text as a value, whatever its shape. The reader is a machine over a stack of unclosed arrays
and objects, and each of its turns either leaves a shorter text or is followed by one that does.
-/

namespace Funnel.Json

def maxDepth : Nat := 127

/-- The key of an object that stands for the text under this key. -/
def embeddedKey : String := "$serde_json::private::RawValue"

/-- The text that an object behind its key stands for, and what follows the text. -/
def embedded (cs : List Char) : Except Flaw (List Char × List Char) :=
  match skipSpace cs with
  | '"' :: rest => text rest
  | other => .error (mismatch "raw value" other)

theorem length_of_embedded {cs s rest : List Char} (h : embedded cs = .ok (s, rest)) :
    s.length + rest.length < cs.length := by
  unfold embedded at h
  split at h
  · rename_i hcs
    have h1 := length_of_skipSpace hcs
    have h2 := length_of_text h
    omega
  · cases h

/-- An array or object in which a value is being read, with what it holds so far, last part
first. -/
inductive Frame
  | array (items : List Json)
  | object (members : List (String × Json)) (key : String)

/-- What is to be done: to read a value, to go on with an array or object of which some parts have
been read, or to make use of a value. -/
inductive Work
  | value
  | items (items : List Json)
  | members (members : List (String × Json))
  | done (value : Json)

/-- Work that may follow other work without any text being read has a lower rank. -/
def Work.rank : Work → Nat
  | value => 0
  | items _ | members _ => 1
  | done _ => 2

/-- Does some work inside of some frames, and all that is left to do; `whole` is the text in which
places are counted. -/
def readFrom (whole : List Char) (work : Work) (stack : List Frame) (cs : List Char) :
    Except ReadError Json :=
  match work, stack with
  | .value, stack =>
    match _hcs : skipSpace cs with
    | '[' :: rest =>
      if maxDepth ≤ stack.length then
        .error ((Fault.tooDeep.upon ('[' :: rest)).located whole)
      else readFrom whole (.items []) stack rest
    | '{' :: rest =>
      if maxDepth ≤ stack.length then
        .error ((Fault.tooDeep.upon ('{' :: rest)).located whole)
      else readFrom whole (.members []) stack rest
    | other =>
      match _hscalar : scalar other with
      | .error flaw => .error (flaw.located whole)
      | .ok (value, rest) => readFrom whole (.done value) stack rest
  | .items items, stack =>
    match _hnext : nextItem items.isEmpty cs with
    | .error flaw => .error (flaw.located whole)
    | .ok (.close rest) => readFrom whole (.done (.array items.reverse)) stack rest
    | .ok (.item rest) => readFrom whole .value (.array items :: stack) rest
  | .members members, stack =>
    match _hnext : nextKey members.isEmpty cs with
    | .error flaw => .error (flaw.located whole)
    | .ok (.close rest) => readFrom whole (.done (.object members.reverse)) stack rest
    | .ok (.key name rest) =>
      match _hcolon : colon rest with
      | .error flaw => .error (flaw.located whole)
      | .ok rest =>
        if members.isEmpty && name == embeddedKey then
          match _hembedded : embedded rest with
          | .error flaw => .error (flaw.located whole)
          | .ok (s, rest) =>
            match readFrom s .value [] s with
            | .error error => .error error
            | .ok value =>
              match _hend : endMembers rest with
              | .error flaw => .error (flaw.located whole)
              | .ok rest => readFrom whole (.done value) stack rest
        else readFrom whole .value (.object members name :: stack) rest
  | .done value, [] =>
    match endText cs with
    | .error flaw => .error (flaw.located whole)
    | .ok () => .ok value
  | .done value, .array items :: stack => readFrom whole (.items (value :: items)) stack cs
  | .done value, .object members name :: stack =>
    readFrom whole (.members ((name, value) :: members)) stack cs
termination_by (cs.length, work.rank)
decreasing_by
  · exact Prod.Lex.left _ _ (length_of_skipSpace _hcs)
  · exact Prod.Lex.left _ _ (length_of_skipSpace _hcs)
  · apply Prod.Lex.left
    have h1 := length_of_scalar _hscalar
    have h2 := length_skipSpace_le cs
    rw [_hcs] at h2
    omega
  · exact Prod.Lex.left _ _ (length_of_nextItem_close _hnext)
  · rcases Nat.lt_or_eq_of_le (length_of_nextItem_item _hnext) with h | h
    · exact Prod.Lex.left _ _ h
    · rw [h]
      exact Prod.Lex.right _ Nat.one_pos
  · exact Prod.Lex.left _ _ (length_of_nextKey_close _hnext)
  · apply Prod.Lex.left
    have h1 := length_of_nextKey_key _hnext
    have h2 := length_of_colon _hcolon
    have h3 := length_of_embedded _hembedded
    omega
  · apply Prod.Lex.left
    have h1 := length_of_nextKey_key _hnext
    have h2 := length_of_colon _hcolon
    have h3 := length_of_embedded _hembedded
    have h4 := length_of_endMembers _hend
    omega
  · apply Prod.Lex.left
    have h1 := length_of_nextKey_key _hnext
    have h2 := length_of_colon _hcolon
    omega
  · exact Prod.Lex.right _ (Nat.lt_succ_self _)
  · exact Prod.Lex.right _ (Nat.lt_succ_self _)

def read (s : String) : Except ReadError Json :=
  readFrom s.toList .value [] s.toList

end Funnel.Json
