import QueryTree.Pass.Pipeline

/-! Composite group keys taken apart.

A database groups by scalars, so a tuple stands for its elements and an entity for its key.
-/

set_option autoImplicit false

namespace QueryTree.Pass

def isComposite : Node → Bool
  | .tuple _ | .object .. => true
  | _ => false

/-- The scalars a group key consists of. -/
def keyParts : Node → List Node :=
  Node.para fun
    | .tuple elements => elements.flatMap Prod.snd
    | .object _ keys => keys.flatMap (·.expr.2)
    | s => [.mk (s.map Prod.fst)]

def flattenKeys : Node → Node
  | .select q => .select { q with groupBy := q.groupBy.flatMap keyParts }
  | n => n

def groupKeys : Pass :=
  { name := "group_by_collation"
    description := "Flattens tuple and entity group-by keys into their component expressions"
    transform := Node.mapUp flattenKeys }

end QueryTree.Pass
