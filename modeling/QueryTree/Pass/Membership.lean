import QueryTree.Node.Build
import QueryTree.Pass.Pipeline

/-! Membership in a literal list.

A scalar is sought among the items, given one by one. A tuple or an entity is equal to one of the items, part
by part. Nothing is in the empty list.
-/

set_option autoImplicit false

namespace QueryTree.Pass

/-- The parts a composite is compared by. -/
def components? : Node → Option (List Node)
  | .tuple elements => some elements
  | .object _ keys => some (keys.map (·.expr))
  | _ => none

/-- A literal to compare `n` with, of the type of `n` where that is known. -/
def literalLike (n : Node) (value : Value) : Node :=
  if n.dataType = .unknown then .literal value else .constant value n.dataType

/-- Equality with an item that has as many parts. -/
def equalsItem? (parts : List Node) : Value → Option Node
  | .list values =>
    if values.length = parts.length then
      Node.conjunction (List.zipWith (fun p v => .equal p (literalLike p v)) parts values)
    else none
  | _ => none

def membership? (operand : Node) (items : List Value) : Option Node :=
  if items.isEmpty then some (.literal (.bool false))
  else match components? operand with
    | some parts => (items.mapM (equalsItem? parts)).bind Node.disjunction
    | none => some (.call .isIn (operand :: items.map (literalLike operand)) .boolean)

def expandMembership : Node → Node
  | .call .isIn [operand, .constant (.list items) listType] type =>
    (membership? operand items).getD (.call .isIn [operand, .constant (.list items) listType] type)
  | n => n

def membership : Pass :=
  { name := "collection_expansion"
    description := "Expands IN over literal collections into argument lists or OR-chains"
    transform := Node.mapUp expandMembership }

end QueryTree.Pass
