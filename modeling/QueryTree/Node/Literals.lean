import QueryTree.Node.Fold

/-! Literals taken out of a tree.

`extractLiterals` replaces each literal by a placeholder and lists the values in the order of the
placeholders, so queries that differ only in literals become the same tree. A null stays, for it is
written differently from a value, and so do the literals that become part of the command text.
-/

set_option autoImplicit false

namespace QueryTree

/-- Holds only literals that are part of the command text. -/
def Shape.isVerbatim {α : Type} : Shape α → Bool
  | .setCommand .. | .createTable _ | .alterTable .. | .columnDefinition .. | .constraint ..
  | .constraintAction .. | .createIndex _ => true
  | _ => false

namespace Node

/-- Take the literals out of a tree, adding them to those already taken. -/
def extract : Node → StateM (List Value) Node :=
  para fun s =>
    match s with
    | .constant value type =>
      if value.isNull then pure (.constant value type)
      else fun values => (.placeholder values.length type, values ++ [value])
    | s => if s.isVerbatim then pure (.mk (s.map Prod.fst)) else return .mk (← s.traverse Prod.snd)

/-- The tree without its literals, and the literals. -/
def extractLiterals (n : Node) : Node × List Value := n.extract []

end Node

end QueryTree
