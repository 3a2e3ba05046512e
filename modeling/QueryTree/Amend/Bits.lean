import QueryTree.Dialect.Basic
import QueryTree.Node.Alike
import QueryTree.Node.Build

/-! Tests and bit values kept apart, for databases without a boolean type.

A position asks for a test or for a value. A boolean value where a test is asked for is compared with true; a
test where a value is asked for is read by a `CASE`.
-/

set_option autoImplicit false

namespace QueryTree.Amend

inductive Position where
  | value
  | predicate
  deriving DecidableEq, Repr

/-- A layer whose children have taken their positions. -/
def positioned {α : Type} : Shape (Position → α) → Shape α
  | .binary op left right type =>
    let position := if op.isLogical then .predicate else .value
    .binary op (left position) (right position) type
  | .unary op operand type => .unary op (operand (if op = .not then .predicate else .value)) type
  | .select s => .select { s.map (· .value) with filter := s.filter.map (· .predicate) }
  | .join kind left right condition =>
    .join kind (left .value) (right .value) (condition.map (· .predicate))
  | .conditional branches otherwise type =>
    .conditional (branches.map fun b => ⟨b.condition .predicate, b.result .value⟩)
      (otherwise.map (· .value)) type
  | .update u => .update { u.map (· .value) with filter := u.filter.map (· .predicate) }
  | .delete owner label filter => .delete owner label (filter.map (· .predicate))
  | .createIndex i => .createIndex { i.map (· .value) with filter := i.filter.map (· .predicate) }
  | s => s.map (· .value)

/-- A negation whose operand became another node is boolean. -/
def retyped (before : Shape Node) (after : Shape Node) : Node :=
  match before, after with
  | .unary .not operand _, .unary .not operand' type =>
    if operand == operand' then .unary .not operand' type else .negation operand'
  | _, after => .mk after

/-- Boolean, but no test. -/
def isBit (n : Node) : Bool := n.dataType.isBoolean && !n.isPredicate

def asValue (test : Node) : Node :=
  .conditional [⟨test, .literal (.bool true)⟩] (some (.literal (.bool false))) .boolean

def atPosition (position : Position) (n : Node) : Node :=
  match position with
  | .predicate => if isBit n then .equal n (.literal (.bool true)) else n
  | .value => if n.isPredicate then asValue n else n

/-- The node as its position asks for it. -/
def normalizeBits : Node → Position → Node :=
  Node.para fun s position =>
    atPosition position (retyped (s.map Prod.fst) (positioned (s.map Prod.snd)))

def bits : Amender where
  name := "bit_boolean_normalizer"
  amend n := normalizeBits n .value

end QueryTree.Amend
