import Mathlib.Data.List.Sort
import QueryTree.Pass.Sources

/-! The rows that queries over one source have.

An expression has a value where the columns it refers to have one. Truth has three values, of which the unknown
one is null, and a filter lets a row pass when it is true. A select filters the rows of its source, puts them in order
and reads its columns from each. What else there is to know is up to the database: its tables and routines, and how
it compares, reckons with and orders values that are not null.
-/

set_option autoImplicit false

namespace QueryTree

/-- A row, by the names of its columns. -/
abbrev Record := String → Value

/-- Rows with columns of these names. -/
structure Relation where
  names : String → Bool
  rows : List Record

/-- What queries ask of a database, and the values that are given with a command. -/
structure Engine where
  table : String → Relation
  parameter : String → Value
  literal : Nat → Value
  call : Routine → List Value → Value
  /-- Nothing where it is unknown. -/
  compare : BinaryOp → Value → Value → Option Bool
  reckon : BinaryOp → Value → Value → Value
  negate : Value → Value
  /-- The first comes no later than the second; nulls have a place too. -/
  precedes : Value → Value → Bool
  total : ∀ a b, precedes a b = true ∨ precedes b a = true
  trans : ∀ a b c, precedes a b = true → precedes b c = true → precedes a c = true

/-! ### Truth -/

namespace Truth

/-- False is decided by either side. -/
def both : Option Bool → Option Bool → Option Bool
  | some false, _ | _, some false => some false
  | some true, some true => some true
  | _, _ => none

/-- True is decided by either side. -/
def either : Option Bool → Option Bool → Option Bool
  | some true, _ | _, some true => some true
  | some false, some false => some false
  | _, _ => none

def value : Option Bool → Value
  | some b => .bool b
  | none => .null

@[simp] theorem bool_value (a : Option Bool) : (value a).bool? = a := by cases a <;> rfl

end Truth

theorem Value.bool_eq_some {v : Value} {b : Bool} : v.bool? = some b ↔ v = .bool b := by
  cases v <;> simp [Value.bool?]

/-! ### Expressions -/

/-- Part of an expression over one row. -/
def Shape.isScalar {α : Type} : Shape α → Bool
  | .column _ | .constant .. | .placeholder .. | .parameter .. | .call .. | .binary .. | .unary .. | .conditional ..
  | .tuple _ | .object .. => true
  | _ => false

namespace Node

/-- What a tree comes to, from what its columns come to. -/
def evaluate {β : Type} (leaf : Column → β) (step : Shape β → β) : Node → β :=
  fold fun
    | .column c => leaf c
    | s => step s

/-- An expression over one row that refers to columns in scope only. -/
def isBound (scope : Column → Bool) : Node → Bool :=
  evaluate scope fun s => s.isScalar && s.children.all id

end Node

namespace Engine

variable (e : Engine)

def binary (op : BinaryOp) (a b : Value) : Value :=
  if op = .and then Truth.value (Truth.both a.bool? b.bool?)
  else if op = .or then Truth.value (Truth.either a.bool? b.bool?)
  else if a.isNull || b.isNull then .null
  else if op.isComparison then Truth.value (e.compare op a b)
  else e.reckon op a b

def unary (op : UnaryOp) (a : Value) : Value :=
  match op with
  | .not => Truth.value (a.bool?.map not)
  | .negate => if a.isNull then .null else e.negate a
  | .isNull => .bool a.isNull
  | .isNotNull => .bool !a.isNull

/-- The result of the first branch whose condition is true, or the one left otherwise. -/
def choose (branches : List (Branch Value)) (otherwise : Option Value) : Value :=
  match branches.find? fun b => b.condition = .bool true with
  | some b => b.result
  | none => otherwise.getD .null

/-- What a layer other than a column comes to. -/
def combine : Shape Value → Value
  | .constant value _ => value
  | .placeholder index _ => e.literal index
  | .parameter name _ => e.parameter name
  | .call routine arguments _ => e.call routine arguments
  | .binary op left right _ => e.binary op left right
  | .unary op operand _ => e.unary op operand
  | .conditional branches otherwise _ => choose branches otherwise
  | .tuple elements => .list elements
  | .object _ keys => .list (keys.map (·.expr))
  | _ => .null

def value (columns : Column → Value) : Node → Value := Node.evaluate columns e.combine

end Engine

/-! ### Selects -/

namespace Select

/-- Exposes the columns of its source and no other. -/
def isWildcard (q : Select Node) : Bool :=
  q.columns.all fun b => b.isWildcard && b.expr.column?.any (·.name == Node.wildcard)

/-- Filters, orders and projects the rows of its source, by expressions over one row each. -/
def isSimple (scope : Column → Bool) (q : Select Node) : Bool :=
  q.groupBy.isEmpty && !q.distinct && q.skip.isNone && q.take.isNone && !q.forUpdate &&
    (q.isWildcard || !q.projectsStar && q.columns.all (·.expr.isBound scope)) &&
    q.filter.all (Node.isBound scope) && q.orderBy.all (·.expr.isBound scope)

def exposed (q : Select Node) (names : String → Bool) : String → Bool :=
  if q.isWildcard then names else fun name => q.columns.any (·.name == name)

end Select

namespace Engine

variable (e : Engine)

/-- How expressions read the columns of a row. -/
abbrev Reading := Record → Column → Value

variable (reading : Reading)

def passes (filter : Option Node) (r : Record) : Bool := filter.all fun f => e.value (reading r) f = .bool true

/-- The first row comes no later by this key. -/
def byKey (o : OrderItem Node) (a b : Record) : Bool :=
  match o.direction with
  | .ascending => e.precedes (e.value (reading a) o.expr) (e.value (reading b) o.expr)
  | .descending => e.precedes (e.value (reading b) o.expr) (e.value (reading a) o.expr)

/-- The first key in which the rows differ decides. -/
def inOrder : List (OrderItem Node) → Record → Record → Bool
  | [], _, _ => true
  | o :: rest, a, b => e.byKey reading o a b && (!e.byKey reading o b a || inOrder rest a b)

/-- Rows that come neither before nor after each other stay as they were. -/
def sort (items : List (OrderItem Node)) (rows : List Record) : List Record :=
  rows.insertionSort fun a b => e.inOrder reading items a b

def project (q : Select Node) (r : Record) : Record :=
  if q.isWildcard then r
  else fun name => ((q.columns.find? (·.name == name)).map fun b => e.value (reading r) b.expr).getD .null

/-- The rows of a select over those of its source. -/
def answer (q : Select Node) (source : Relation) : Relation :=
  { names := q.exposed source.names
    rows := (e.sort reading q.orderBy (source.rows.filter (e.passes reading q.filter))).map (e.project reading q) }

end Engine

/-- The columns that a source of that label exposes. -/
def Column.inScope (label : String) (names : String → Bool) (c : Column) : Bool := c.label == label && names c.name

/-- A row is read by name, whatever the label of its source. -/
def Engine.byName : Engine.Reading := fun r c => r c.name

/-- The rows of a table or of selects over one; nothing for any other tree, and where a select refers to what its
source does not expose. -/
def Engine.relation? (e : Engine) : Node → Option Relation :=
  Node.para fun
    | .table name _ _ => some (e.table name)
    | .select q => do
      let (node, relation) ← q.source
      let label ← node.sourceLabel?
      let source ← relation
      let q := q.map Prod.fst
      if q.isSimple (Column.inScope label source.names) then some (e.answer byName q source) else none
    | _ => none

end QueryTree
