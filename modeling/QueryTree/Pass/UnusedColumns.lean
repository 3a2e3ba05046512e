import QueryTree.Node.Search
import QueryTree.Pass.Pipeline
import QueryTree.Pass.Sources

/-! Columns of source selects that nothing refers to.

A source keeps the columns that are referred to anywhere in the tree, and one at least. It keeps all of them
when it is distinct, since they decide which rows it has, and when what reads from it passes them all on.
Removing columns may leave others unused, so the removal is repeated.
-/

set_option autoImplicit false

namespace QueryTree.Pass

def uses (used : List Column) (label name : String) : Bool :=
  used.any fun c => c.label == label && c.name == name

def keptColumns (used : List Column) (s : Select Node) : List (Binding Node) :=
  if s.distinct then s.columns
  else match s.columns.filter fun b => uses used s.label b.name with
    | [] => s.columns.take 1
    | kept => kept

def pruneSource (used : List Column) (s : Select Node) : Node :=
  .select { s with columns := keptColumns used s }

def pruneSources (used : List Column) : Node → Node
  | .select q =>
    if q.projectsStar then .select q
    else .select { q with source := q.source.map (Node.mapSources (pruneSource used)) }
  | n => n

/-- One removal of the columns that are not referred to. -/
def pruneUnused (n : Node) : Node := n.mapUp (pruneSources n.columns)

def declaredColumns (n : Node) : Nat :=
  ((n.subtrees.filterMap Node.select?).flatMap (·.columns)).length

/-- Each removal but the last takes a column away, so there are no more than columns and one. -/
def unusedColumns : Pass :=
  { name := "unused_column_removal"
    description := "Removes columns of source selects that no enclosing scope references"
    transform := fun n => n.untilStable pruneUnused (declaredColumns n + 1) }

end QueryTree.Pass
