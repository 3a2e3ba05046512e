import QueryTree.Cache
import QueryTree.Command.Formatter
import QueryTree.Node.Literals
import QueryTree.Projection.Projector
import QueryTree.Pass.Standard

/-! Compiling queries, once for all that are alike.

The tree of a query goes through the passes and the amenders, and its literals are taken out. Queries that
are alike after that share a plan, which is the command text with its slots and the projector. Each binds its
own literals and parameters to it.
-/

set_option autoImplicit false

namespace QueryTree

/-- What decides which plan a query has: the amended tree and the projection, but for literals. -/
structure PlanKey where
  shape : Node
  projection : Option Projection

instance : BEq PlanKey where
  beq a b := a.shape.alike { constants := true } b.shape && Projection.alikeOption a.projection b.projection

structure Plan where
  formatted : Formatted
  projector : Projector
  elementType : DataType

abbrev PlanCache := Cache PlanKey Plan

/-- A plan with the command that runs it for one query. -/
structure Prepared where
  plan : Plan
  command : Command

structure Planner where
  dialect : Dialect
  /-- Without one, trees are compiled as they are. -/
  pipeline : Option Pipeline := some .standard

namespace Planner

/-- The tree of a query as the dialect takes it. -/
def settle (p : Planner) (root : Node) : Node :=
  p.dialect.amend (match p.pipeline with
    | some pipeline => pipeline.optimize root
    | none => root)

/-- The plan of a query whose literals have been taken out of `tree`. -/
def compile (p : Planner) (q : BoundQuery) (tree : Node) : Except CompileError Plan := do
  let formatted ← p.dialect.format tree
  let projector ← Projector.compile q.projection tree
  return { formatted, projector, elementType := q.elementType }

def prepare (p : Planner) (q : BoundQuery) : ExceptT CompileError (StateM PlanCache) Prepared := do
  let settled := p.settle q.root
  let (tree, literals) := settled.extractLiterals
  let plan ← Cache.getOrCompile ⟨settled, q.projection⟩ fun _ => p.compile q tree
  let command ← ExceptT.mk (pure (plan.formatted.bind literals q.parameters))
  return ⟨plan, command⟩

end Planner

end QueryTree
