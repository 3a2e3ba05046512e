import QueryTree.Node.Alike
import QueryTree.Node.Fold

/-! Passes and the pipeline that runs them.

A pass takes a whole tree to one with the same meaning. A round runs every pass once, in order; rounds go on
until one leaves the tree as it was.
-/

set_option autoImplicit false

namespace QueryTree

structure Pass where
  name : String
  description : String
  transform : Node → Node

/-- Apply `step` until it changes nothing, `rounds` times at most. -/
def Node.untilStable (step : Node → Node) : Nat → Node → Node
  | 0, n => n
  | rounds + 1, n =>
    let next := step n
    if next == n then n else untilStable step rounds next

structure Pipeline where
  passes : List Pass := []
  maxRounds : Nat := 8

namespace Pipeline

def add (p : Pipeline) (pass : Pass) : Pipeline := { p with passes := p.passes ++ [pass] }

/-- Without the passes of that name. -/
def remove (p : Pipeline) (name : String) : Pipeline :=
  { p with passes := p.passes.filter (·.name != name) }

/-- Every pass once, in order. -/
def round (p : Pipeline) (n : Node) : Node := p.passes.foldl (fun n pass => pass.transform n) n

/-- Rounds until one changes nothing; one at least. -/
def optimize (p : Pipeline) (n : Node) : Node := n.untilStable p.round (max p.maxRounds 1)

end Pipeline

end QueryTree
