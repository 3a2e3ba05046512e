import QueryTree.Node.Build
import QueryTree.Pass.Pipeline

/-! Comparisons of entities, by their keys.

Entities are equal when their keys are, part by part, and an entity is null when its whole key is.
-/

set_option autoImplicit false

namespace QueryTree.Pass

/-- The parts of two keys that have the same name. -/
def pairKeys? (left right : List (Binding Node)) : Option (List (Node × Node)) :=
  if left.length ≠ right.length || left.isEmpty then none
  else left.mapM fun l => (right.find? (·.name == l.name)).map fun r => (l.expr, r.expr)

/-- Equality of parts: of all of them for equality of the whole, or a difference in any. -/
def compareKeys? (op : BinaryOp) (pairs : List (Node × Node)) : Option Node :=
  Node.joinAll (if op = .eq then .and else .or) (pairs.map fun (l, r) => .ofBinary op l r)

/-- Comparison of a key with null. -/
def testKeys? (op : BinaryOp) (keys : List (Binding Node)) : Option Node :=
  if op = .eq then Node.conjunction (keys.map fun k => .ofUnary .isNull k.expr)
  else Node.disjunction (keys.map fun k => .ofUnary .isNotNull k.expr)

def isNullLiteral (n : Node) : Bool := n.constant?.any Value.isNull

def compareEntities? (op : BinaryOp) : Node → Node → Option Node
  | .object _ l, .object _ r => (pairKeys? l r).bind (compareKeys? op)
  | .object _ keys, other | other, .object _ keys =>
    if isNullLiteral other then testKeys? op keys else none
  | _, _ => none

def expandComparison : Node → Node
  | .binary op left right type =>
    if op = .eq || op = .notEq then (compareEntities? op left right).getD (.binary op left right type)
    else .binary op left right type
  | n => n

def entities : Pass :=
  { name := "object_operand_comparison"
    description := "Expands entity comparisons into per-key comparisons"
    transform := Node.mapUp expandComparison }

end QueryTree.Pass
