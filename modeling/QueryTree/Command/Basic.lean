import QueryTree.Dialect.Basic

/-! Command texts and the values they need.

A wording is built from pieces, and a piece is either text or a slot for one value. Its slots have no numbers yet;
numbered from left to right, each is written as the dialect's marker of its number. A command has its text with the
markers in it, and its slots in a list of their own. Binding gives every slot its value.
-/

set_option autoImplicit false

namespace QueryTree

/-- Where the value of a slot comes from. -/
inductive SlotSource where
  | literal (value : Value)
  /-- An index into the literals that were taken out of the tree. -/
  | placeholder (index : Nat)
  | named (name : String)
  deriving DecidableEq, Repr

structure Slot where
  source : SlotSource
  type : DataType
  deriving DecidableEq, Repr

inductive Piece where
  | text (s : String)
  | slot (slot : Slot)
  deriving DecidableEq, Repr

/-- A text with its slots in the order of their markers. -/
structure Formatted where
  text : String
  slots : List Slot
  deriving DecidableEq, Repr

structure TypedValue where
  value : Value
  type : DataType
  deriving DecidableEq, Repr

/-- A command the database can run: the value at an index belongs to the marker of that index. -/
structure Command where
  text : String
  parameters : List TypedValue
  deriving DecidableEq, Repr

namespace Piece

def isBlank : Piece → Bool
  | .text s => s.isEmpty
  | .slot _ => false

def slot? : Piece → Option Slot
  | .text _ => none
  | .slot s => some s

end Piece

/-- Pieces in the order in which they are written. -/
abbrev Wording := List Piece

namespace Wording

def ofText (s : String) : Wording := [.text s]

def parenthesized (w : Wording) : Wording := ofText "(" ++ w ++ ofText ")"

def joined (separator : String) : List Wording → Wording
  | [] => []
  | [w] => w
  | w :: rest => w ++ ofText separator ++ joined separator rest

/-- Nothing would be written. -/
def isBlank (w : Wording) : Bool := w.all Piece.isBlank

/-- The text when the first slot has number `next`. -/
def render (marker : Nat → String) : Nat → Wording → String
  | _, [] => ""
  | next, .text s :: rest => s ++ render marker next rest
  | next, .slot _ :: rest => marker next ++ render marker (next + 1) rest

def slots (w : Wording) : List Slot := w.filterMap Piece.slot?

end Wording

/-- Values by name; of values with one name the first stands. -/
abbrev Named := List (String × Value)

namespace Named

def find? (named : Named) (name : String) : Option Value := (List.find? (·.1 == name) named).map (·.2)

/-- Give a name its value, in place of the value it had. -/
def insert (named : Named) (name : String) (value : Value) : Named :=
  (name, value) :: named.filter (·.1 != name)

end Named

namespace Slot

def bind (values : List Value) (named : Named) (slot : Slot) : Except CompileError TypedValue :=
  match slot.source with
  | .literal value => .ok ⟨value, slot.type⟩
  | .placeholder index =>
    match values[index]? with
    | some value => .ok ⟨value, slot.type⟩
    | none => .error (.missingPlaceholder index)
  | .named name =>
    match named.find? name with
    | some value => .ok ⟨value, slot.type⟩
    | none => .error (.missingParameter name)

def name? (slot : Slot) : Option String :=
  match slot.source with
  | .named name => some name
  | _ => none

end Slot

namespace Formatted

/-- Give every slot its value, in order; the first slot without one is the error. -/
def bind (f : Formatted) (values : List Value) (named : Named) : Except CompileError Command := do
  return { text := f.text, parameters := ← f.slots.mapM (Slot.bind values named) }

/-- The names of the named slots, each once, in the order first used. -/
def names (f : Formatted) : List String :=
  (f.slots.filterMap Slot.name?).foldl (fun seen n => if seen.contains n then seen else seen ++ [n]) []

end Formatted

end QueryTree
