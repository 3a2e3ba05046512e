import QueryTree.Node.Build

/-! The selects a select reads from, and what references to their columns stand for.

A mapping says what each column of one select is, seen from outside: the expression that declares it or, for
a select that passes on every column of its source, the column of that name in the source. Remapping puts
the meaning in place of the reference, and follows references through as many selects as there are mappings.
-/

set_option autoImplicit false

namespace QueryTree

namespace Node

/-- The selects joined in a source, from left to right. -/
def sourceSelects : Node → List (Select Node)
  | .select q => [q]
  | .join _ left right _ => left.sourceSelects ++ right.sourceSelects
  | _ => []

/-- Replace the selects joined in a source. -/
def mapSources (f : Select Node → Node) : Node → Node
  | .select q => f q
  | .join kind left right condition => .join kind (left.mapSources f) (right.mapSources f) condition
  | n => n

def sourceLabel? : Node → Option String
  | .table _ label _ => some label
  | .select q => some q.label
  | _ => none

end Node

structure Mapping where
  label : String
  /-- The last column of a name counts. -/
  columns : List (Binding Node)
  /-- Where the other columns come from. -/
  passthrough : Option String := none

namespace Mapping

/-- A select with a wildcard is mapped when its source has a label. -/
def ofSelect? (s : Select Node) : Option Mapping :=
  let columns := s.columns.filter fun b => !b.isWildcard
  if s.projectsStar then
    (s.source.bind Node.sourceLabel?).map fun owner => ⟨s.label, columns, some owner⟩
  else some ⟨s.label, columns, none⟩

def expr? (m : Mapping) (name : String) : Option Node :=
  (m.columns.reverse.find? (·.name == name)).map (·.expr)

def resolve? (m : Mapping) (c : Column) : Option Node :=
  if c.label == m.label then
    m.expr? c.name <|> m.passthrough.map fun owner => .column { c with label := owner }
  else none

/-- Steps within which following references comes to an end, unless they turn in a circle: each
declared column is met once at most, and between two of them each mapping once. -/
def maxDepth (mappings : List Mapping) : Nat :=
  ((mappings.flatMap (·.columns)).length + 1) * (mappings.length + 1)

def follow (mappings : List Mapping) : Nat → Node → Node
  | 0, n => n
  | depth + 1, n => n.mapUp fun
    | .column c =>
      match mappings.findSome? (·.resolve? c) with
      | some meaning => follow mappings depth meaning
      | none => .column c
    | n => n

end Mapping

/-- Put the meaning of each column in its place. -/
def Node.remap (mappings : List Mapping) (n : Node) : Node :=
  Mapping.follow mappings (Mapping.maxDepth mappings) n

end QueryTree
