import QueryTree.Node.Build
import QueryTree.Pass.Pipeline

/-! Connectives with a literal operand, and doubled negations. -/

set_option autoImplicit false

namespace QueryTree.Pass

/-- The operand that decides a connective alone: false for a conjunction, true for a disjunction. The
opposite leaves it to the other operand. -/
def absorbing? : BinaryOp → Option Bool
  | .and => some false
  | .or => some true
  | _ => none

/-- What a connective comes to, seen from the literal `b` on one side. -/
def absorb (absorbing b : Bool) (other : Node) : Node :=
  if b = absorbing then .literal (.bool absorbing) else other

def simplifyConnective : Node → Node
  | .binary op left right type =>
    match absorbing? op, left.bool?, right.bool? with
    | some absorbing, some b, _ => absorb absorbing b right
    | some absorbing, none, some b => absorb absorbing b left
    | _, _, _ => .binary op left right type
  | .unary .not (.unary .not operand _) _ => operand
  | .unary .not operand type =>
    match operand.bool? with
    | some b => .literal (.bool !b)
    | none => .unary .not operand type
  | n => n

def connectives : Pass :=
  { name := "redundant_binary_removal"
    description := "Removes boolean operators made redundant by literal operands"
    transform := Node.mapUp simplifyConnective }

end QueryTree.Pass
