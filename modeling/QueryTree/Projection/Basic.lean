import QueryTree.Command.Basic
import QueryTree.Node.Alike

/-! Queries with what becomes of their rows.

A projection says how a row of the query is made into a result. It may hold queries of its own, which run
once for each row with parameters taken from the row. Projections are alike when they differ in literals only;
the literals and the nested queries of a projection are listed in the order in which they stand.
-/

set_option autoImplicit false

namespace QueryTree

/-- A query with the values it is run with. -/
structure Query (π : Type) where
  root : Node
  /-- Without one, a row of one column is its value and any other row the tuple of its values. -/
  projection : Option π := none
  elementType : DataType := .void
  parameters : Named := []
  /-- Values the projection refers to by index. -/
  arguments : List Value := []

inductive Projection where
  | column (name : String) (type : DataType)
  | constant (value : Value)
  | argument (index : Nat)
  | entity (name : String) (fields : List (Binding Projection))
  | tuple (items : List Projection)
  /-- The results of a query, with parameters given by the row. -/
  | nested (query : Query Projection) (correlations : List (Binding Projection))
  deriving Inhabited

abbrev BoundQuery := Query Projection

/-- The literals and the nested queries of a projection. -/
structure ProjectionValues where
  constants : List Value := []
  nested : List BoundQuery := []

def ProjectionValues.append (a b : ProjectionValues) : ProjectionValues :=
  { constants := a.constants ++ b.constants, nested := a.nested ++ b.nested }

namespace Projection

mutual

/-- What stands in nested queries belongs to those, but not what their parameters are taken from. -/
def values : Projection → ProjectionValues
  | .column .. | .argument _ => {}
  | .constant value => { constants := [value] }
  | .entity _ fields => valuesOfBindings fields
  | .tuple items => valuesOfList items
  | .nested query correlations =>
    ProjectionValues.append { nested := [query] } (valuesOfBindings correlations)

def valuesOfList : List Projection → ProjectionValues
  | [] => {}
  | p :: rest => (values p).append (valuesOfList rest)

def valuesOfBindings : List (Binding Projection) → ProjectionValues
  | [] => {}
  | ⟨_, p⟩ :: rest => (values p).append (valuesOfBindings rest)

end

mutual

/-- The same but for the values of literals, of which null-ness and type count. -/
def alike : Projection → Projection → Bool
  | .column name type, .column name' type' => name == name' && type == type'
  | .constant value, .constant value' => value.isNull == value'.isNull && value.dataType == value'.dataType
  | .argument index, .argument index' => index == index'
  | .entity name fields, .entity name' fields' => name == name' && alikeBindings fields fields'
  | .tuple items, .tuple items' => alikeList items items'
  | .nested ⟨root, projection, elementType, _, _⟩ correlations, .nested q correlations' =>
    elementType == q.elementType && root.alike { constants := true } q.root &&
      alikeOption projection q.projection && alikeBindings correlations correlations'
  | _, _ => false

def alikeOption : Option Projection → Option Projection → Bool
  | none, none => true
  | some p, some q => alike p q
  | _, _ => false

def alikeList : List Projection → List Projection → Bool
  | [], [] => true
  | p :: ps, q :: qs => alike p q && alikeList ps qs
  | _, _ => false

def alikeBindings : List (Binding Projection) → List (Binding Projection) → Bool
  | [], [] => true
  | ⟨name, p⟩ :: ps, b :: bs => name == b.name && alike p b.expr && alikeBindings ps bs
  | _, _ => false

end

mutual

/-- How many queries stand in one another. -/
def depth : Projection → Nat
  | .column .. | .constant _ | .argument _ => 0
  | .entity _ fields => depthOfBindings fields
  | .tuple items => depthOfList items
  | .nested ⟨_, projection, _, _, _⟩ correlations =>
    max (depthOfOption projection + 1) (depthOfBindings correlations)

def depthOfOption : Option Projection → Nat
  | none => 0
  | some p => depth p

def depthOfList : List Projection → Nat
  | [] => 0
  | p :: rest => max (depth p) (depthOfList rest)

def depthOfBindings : List (Binding Projection) → Nat
  | [] => 0
  | ⟨_, p⟩ :: rest => max (depth p) (depthOfBindings rest)

end

end Projection

namespace Query

/-- The literals and nested queries of its projection. -/
def values (q : BoundQuery) : ProjectionValues := (q.projection.map Projection.values).getD {}

/-- Greater than the depth of every query nested in it. -/
def depth (q : BoundQuery) : Nat := Projection.depthOfOption q.projection

end Query

end QueryTree
