import QueryTree.Node.Build
import QueryTree.Pass.Pipeline

/-! Conditionals with literal conditions.

A branch whose condition is false or null is never taken. One whose condition is true is taken whenever
it is reached, so it is the last and its result is what is left otherwise.
-/

set_option autoImplicit false

namespace QueryTree.Pass

/-- The branches that may be taken, and the result left for none of them. -/
def pruneBranches (otherwise : Option Node) : List (Branch Node) → List (Branch Node) × Option Node
  | [] => ([], otherwise)
  | b :: rest =>
    match b.condition.constant? with
    | some (.bool true) => ([], some b.result)
    | some (.bool false) | some .null => pruneBranches otherwise rest
    | _ =>
      let (kept, last) := pruneBranches otherwise rest
      (b :: kept, last)

def isDecided (b : Branch Node) : Bool :=
  match b.condition.constant? with
  | some (.bool _) | some .null => true
  | _ => false

def simplifyConditional : Node → Node
  | .conditional branches otherwise type =>
    if branches.any isDecided then
      match pruneBranches otherwise branches with
      | ([], some result) => result
      | ([], none) => .null type
      | (kept, last) => .conditional kept last type
    else .conditional branches otherwise type
  | n => n

def conditionals : Pass :=
  { name := "conditional_elimination"
    description := "Removes CASE branches whose condition is a literal"
    transform := Node.mapUp simplifyConditional }

end QueryTree.Pass
