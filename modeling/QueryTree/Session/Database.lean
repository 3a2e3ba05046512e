import QueryTree.Command.Basic
import QueryTree.Projection.Projector

/-! What a database answers, and the record of what was asked.

A query is answered with rows and how they end. They are read one at a time by a reader, which stands for what
the database holds open until it is closed. Every command goes into the record, and all that is done with readers.
-/

set_option autoImplicit false

namespace QueryTree

/-- The rows of a query. -/
structure ResultSet where
  columns : List String
  rows : List (List Value)
  /-- The error met after the rows, if they do not end well. -/
  failure : Option String := none
  deriving Repr, Inhabited

/-- A database of state `σ`; an error is given by its text. -/
structure Database (σ : Type) where
  query : Command → StateM σ (Except String ResultSet)
  scalar : Command → StateM σ (Except String Value)
  /-- Answers with the number of rows affected. -/
  run : Command → StateM σ (Except String Nat)

inductive Event where
  | query (command : Command)
  | scalar (command : Command)
  | run (command : Command)
  /-- A reader was closed, having been read that often; the end of the rows counts as read. -/
  | close (reader : Nat) (reads : Nat)
  deriving DecidableEq, Repr

/-- What goes into the record. -/
inductive Entry where
  | event (event : Event)
  | opened (reader : Nat)
  /-- A reader was asked for its next row. -/
  | read (reader : Nat)
  deriving DecidableEq, Repr

def Entry.event? : Entry → Option Event
  | .event e => some e
  | _ => none

/-- A database in use. -/
structure Channel (σ : Type) where
  state : σ
  /-- Readers opened so far, which is also the number of the next. -/
  opened : Nat := 0
  /-- The oldest first. -/
  record : List Entry := []

structure Reader where
  number : Nat
  rest : ResultSet
  reads : Nat := 0
  deriving Repr, Inhabited

namespace Reader

/-- The next row, or none at the end of them. -/
def next (r : Reader) : Except String (Option Row × Reader) :=
  match r.rest.rows, r.rest.failure with
  | values :: rows, _ =>
    .ok (some ⟨r.rest.columns, values⟩, { r with rest := { r.rest with rows }, reads := r.reads + 1 })
  | [], some text => .error text
  | [], none => .ok (none, { r with reads := r.reads + 1 })

end Reader

namespace Channel

variable {σ : Type}

/-- The commands that were asked and the closes, the oldest first. -/
def events (c : Channel σ) : List Event := c.record.filterMap Entry.event?

/-- Ask the database. -/
def ask {α : Type} (event : Event) (answer : StateM σ (Except String α)) :
    ExceptT QueryError (StateM (Channel σ)) α := fun c =>
  let (result, state) := answer c.state
  (result.mapError .execution, { c with state, record := c.record ++ [.event event] })

def openReader (d : Database σ) (command : Command) : ExceptT QueryError (StateM (Channel σ)) Reader := do
  let rest ← ask (.query command) (d.query command)
  fun c => (.ok { number := c.opened, rest }, { c with opened := c.opened + 1, record := c.record ++ [.opened c.opened] })

def read (r : Reader) : StateM (Channel σ) (Except String (Option Row × Reader)) := fun c =>
  (r.next, { c with record := c.record ++ [.read r.number] })

def scalar (d : Database σ) (command : Command) : ExceptT QueryError (StateM (Channel σ)) Value :=
  ask (.scalar command) (d.scalar command)

def run (d : Database σ) (command : Command) : ExceptT QueryError (StateM (Channel σ)) Nat :=
  ask (.run command) (d.run command)

def close (r : Reader) : StateM (Channel σ) Unit := fun c =>
  ((), { c with record := c.record ++ [.event (.close r.number r.reads)] })

/-- The same database with an empty record. -/
def afresh (c : Channel σ) : Channel σ := { state := c.state }

end Channel

end QueryTree
