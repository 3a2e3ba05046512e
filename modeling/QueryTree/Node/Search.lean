import QueryTree.Node.Build

/-! Questions about whole trees. -/

set_option autoImplicit false

namespace QueryTree.Node

/-- The first of every run of references to one column. -/
def distinctColumns (cs : List Column) : List Column :=
  cs.foldl (fun seen c => if seen.any c.sameAs then seen else seen ++ [c]) []

/-- The columns a tree refers to, nested queries included, in the order first seen. -/
def columns (n : Node) : List Column := distinctColumns (n.subtrees.filterMap column?)

/-- The node itself refers to the select or table called `label`. -/
def names (label : String) : Node → Bool
  | .column c => c.label == label
  | .groupAggregate owner _ _ _ => owner == label
  | _ => false

def references (label : String) (n : Node) : Bool := n.subtrees.any (names label)

/-- Aggregates at its own level: what stands in nested queries belongs to those. -/
def aggregates : Node → Bool :=
  fold fun
    | .aggregate .. | .groupAggregate .. => true
    | .select _ | .subquery .. => false
    | s => s.children.any id

/-- Refer to `new` wherever a column referred to `old`. -/
def relabel (old new : String) : Node → Node :=
  mapUp fun
    | .column c => .column (if c.label == old then { c with label := new } else c)
    | n => n

end QueryTree.Node
