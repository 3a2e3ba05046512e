import QueryTree.Session.Database

/-! A database that answers from a list prepared beforehand.

Each call takes the next answer, whatever the command. An answer may do for several kinds of calls.
-/

set_option autoImplicit false

namespace QueryTree

/-- What the next call is answered with, if it is of the kind the answer is for. -/
structure Scripted where
  failure : Option String := none
  rows : Option ResultSet := none
  value : Option Value := none
  affected : Option Nat := none
  deriving Repr, Inhabited

abbrev Script := List Scripted

/-- The same rows from a connection that is lost after `count` of them. -/
def ResultSet.lostAfter (s : ResultSet) (count : Nat) : ResultSet :=
  if count ≤ s.rows.length then
    { s with rows := s.rows.take count, failure := some "connection reset" }
  else s

namespace Script

def answer {α : Type} (pick : Scripted → Option α) : StateM Script (Except String α)
  | [] => (.error "no scripted result", [])
  | next :: rest =>
    match next.failure, pick next with
    | some text, _ => (.error text, rest)
    | none, some a => (.ok a, rest)
    | none, none => (.error "bad scripted result", rest)

def database : Database Script :=
  { query := fun _ => answer (·.rows)
    scalar := fun _ => answer (·.value)
    run := fun _ => answer (·.affected) }

end Script

end QueryTree
