import QueryTree.Node.Hash
import QueryTree.Projection.Basic

/-! What a projection gives to a hasher.

Of a nested query it is what a hash of its tree comes to, without the values of literals.
-/

set_option autoImplicit false

namespace QueryTree.Projection

section

variable (moment : Moment → List Write) (digest : List Write → UInt64)

mutual

def writes : Projection → List Write
  | .column name type => .form 0 :: Write.text name ++ type.writes
  | .constant value => .form 1 :: .bool value.isNull :: value.dataType.writes
  | .argument index => [.form 2, .size index]
  | .entity name fields => .form 3 :: Write.text name ++ writesBindings fields
  | .tuple items => .form 4 :: .size items.length :: writesList items
  | .nested ⟨root, projection, _, _, _⟩ correlations =>
    .form 5 :: .u64 (digest (root.writes moment { constants := true })) :: writesOption projection ++
      writesBindings correlations

def writesOption : Option Projection → List Write
  | none => []
  | some p => writes p

def writesList : List Projection → List Write
  | [] => []
  | p :: rest => writes p ++ writesList rest

def writesBindings : List (Binding Projection) → List Write
  | [] => []
  | ⟨name, p⟩ :: rest => Write.text name ++ writes p ++ writesBindings rest

end

end

end QueryTree.Projection
