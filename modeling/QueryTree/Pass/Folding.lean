import QueryTree.Number.Arithmetic
import QueryTree.Number.Whole
import QueryTree.Pass.Pipeline
import QueryTree.Routine.Evaluate

/-! Expressions of literals only, replaced by their value.

An expression is left to the database where its value depends on it: where a null is compared or reckoned
with, where forms of values are mixed, and where arithmetic leaves its range.
-/

set_option autoImplicit false

namespace QueryTree

namespace Moment

def fields (m : Moment) : List Int := [m.year, m.month, m.day, m.hour, m.minute, m.second, m.nano]

/-- The earlier moment is less. -/
def order (a b : Moment) : Ordering := byFields a.fields b.fields
where
  /-- The first difference decides. -/
  byFields : List Int → List Int → Ordering
    | x :: xs, y :: ys => (compare x y).then (byFields xs ys)
    | _, _ => .eq

end Moment

namespace Value

def isDouble : Value → Bool
  | .double _ => true
  | _ => false

/-- The order of two values that are not null: integers of any width, a binary64 number with any number,
and booleans and moments among themselves. -/
def order? (a b : Value) : Option Ordering :=
  match a, b with
  | .bool x, .bool y => some (compare x y)
  | .dateTime x, .dateTime y => some (x.order y)
  | a, b =>
    match a.integer?, b.integer? with
    | some x, some y => some (compare x.toInt y.toInt)
    | _, _ =>
      if a.isDouble || b.isDouble then do Double.order? (← a.double?) (← b.double?) else none

end Value

namespace Pass

/-- What a comparison says of operands in that order. -/
def holds (op : BinaryOp) (ordering : Ordering) : Bool :=
  match op with
  | .eq => ordering = .eq
  | .notEq => ordering ≠ .eq
  | .lt => ordering = .lt
  | .ltEq => ordering ≠ .gt
  | .gt => ordering = .gt
  | _ => ordering ≠ .lt

/-- Whole-number arithmetic in a range; division goes towards zero, and a remainder needs its quotient. -/
def reckonWhole? (fits : Int → Bool) (op : BinaryOp) (a b : Int) : Option Int :=
  let kept (n : Int) : Option Int := if fits n then some n else none
  match op with
  | .add => kept (a + b)
  | .subtract => kept (a - b)
  | .multiply => kept (a * b)
  | .divide => if b = 0 then none else kept (a.tdiv b)
  | .modulo => if b = 0 then none else (kept (a.tdiv b)).map fun _ => a.tmod b
  | _ => none

def reckonDouble? (op : BinaryOp) (a b : Double) : Option Double :=
  match op with
  | .add => a.sum? b
  | .subtract => a.difference? b
  | .multiply => a.product? b
  | .divide => a.quotient? b
  | _ => none

/-- Arithmetic of two numbers of one form. -/
def reckon? (op : BinaryOp) : Value → Value → Option Value
  | .int32 a, .int32 b => (reckonWhole? fitsInt32 op a.toInt b.toInt).map fun n => .int32 (.ofInt n)
  | .int64 a, .int64 b => (reckonWhole? fitsInt64 op a.toInt b.toInt).map fun n => .int64 (.ofInt n)
  | .double a, .double b => (reckonDouble? op a b).map .double
  | _, _ => none

def evaluateBinary? (op : BinaryOp) (a b : Value) : Option Value :=
  if a.isNull || b.isNull then none
  else if op.isLogical then do
    let x ← a.bool?
    let y ← b.bool?
    return .bool (if op = .and then x && y else x || y)
  else if op.isComparison then (a.order? b).map fun ordering => .bool (holds op ordering)
  else reckon? op a b

def evaluateUnary? (op : UnaryOp) (a : Value) : Option Value :=
  match op, a with
  | .isNull, a => some (.bool a.isNull)
  | .isNotNull, a => some (.bool !a.isNull)
  | .not, .bool b => some (.bool !b)
  | .negate, .int32 n => if n = Int32.minValue then none else some (.int32 (-n))
  | .negate, .int64 n => if n = Int64.minValue then none else some (.int64 (-n))
  | .negate, .double d => some (.double d.negate)
  | _, _ => none

/-- The value of a node whose operands are literals. -/
def evaluate? : Node → Option Value
  | .binary op left right _ => do evaluateBinary? op (← left.constant?) (← right.constant?)
  | .unary op operand _ => do evaluateUnary? op (← operand.constant?)
  | .call routine arguments _ => do routine.evaluate? (← arguments.mapM Node.constant?)
  | _ => none

/-- A null keeps the type of the expression. -/
def foldLiteral (n : Node) : Node :=
  match evaluate? n with
  | some value => .constant value (if value.isNull then n.dataType else value.dataType)
  | none => n

def literals : Pass :=
  { name := "partial_evaluation"
    description := "Evaluates literal-only expressions at compile time"
    transform := Node.mapUp foldLiteral }

end Pass

end QueryTree
