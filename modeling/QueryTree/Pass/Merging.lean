import QueryTree.Node.Search
import QueryTree.Pass.Pipeline
import QueryTree.Pass.Sources

/-! Source selects that their parent can do without.

A select that only filters and orders its source gives its source and its filter to the select that reads from
it. In a join, a select that only passes on columns makes place for its source. References to its columns
then stand for what the columns were.
-/

set_option autoImplicit false

namespace QueryTree

/-- Windows at its own level; see `Node.aggregates`. -/
def Node.windows : Node → Bool :=
  fold fun
    | .window .. => true
    | .select _ | .subquery .. => false
    | s => s.children.any id

namespace Pass

/-- The rows of `inner` are those of its source that pass its filter. -/
def canMerge (outer inner : Select Node) : Bool :=
  inner.source.isSome && inner.groupBy.isEmpty && !inner.distinct && inner.skip.isNone &&
    inner.take.isNone && !inner.forUpdate &&
    !inner.columns.any (fun b => b.expr.aggregates || b.expr.windows) &&
    (!outer.projectsStar || inner.projectsStar)

/-- Either filter, or both with the inner one first. -/
def mergeFilters : Option Node → Option Node → Option Node
  | some inner, some outer => some (.both inner outer)
  | some inner, none => some inner
  | none, outer => outer

/-- The order of its source shows in a select that neither groups its rows nor makes them distinct. -/
def inheritsOrder (outer : Select Node) : Bool :=
  outer.groupBy.isEmpty && !outer.distinct && !outer.columns.any (·.expr.aggregates)

def mergeOrder (outer inner : Select Node) : List (OrderItem Node) :=
  if !outer.orderBy.isEmpty then outer.orderBy
  else if inheritsOrder outer then inner.orderBy
  else []

def merge (outer inner : Select Node) : Select Node :=
  { outer with
    source := inner.source
    filter := mergeFilters inner.filter outer.filter
    orderBy := mergeOrder outer inner }

def isReference (b : Binding Node) : Bool := b.expr.column?.isSome

/-- Only passes on columns of its source: all of them, or some by name where no select asks for all. -/
def passesThrough (outerIsStar : Bool) (s : Select Node) (source : Node) : Bool :=
  s.isPlain &&
    if s.columns.all (·.isWildcard) then source.sourceLabel?.isSome
    else !outerIsStar && s.columns.all isReference

/-- A joined select, or its source and the mapping of its columns. -/
def skipJoined (outerIsStar : Bool) (s : Select Node) : Node × List Mapping :=
  match s.source, Mapping.ofSelect? s with
  | some source, some mapping =>
    if passesThrough outerIsStar s source then (source, [mapping]) else (.select s, [])
  | _, _ => (.select s, [])

/-- A select without the source selects it can do without, and their mappings. -/
def flattenSelect (q : Select Node) : Select Node × List Mapping :=
  match q.source with
  | some (.select inner) =>
    match Mapping.ofSelect? inner with
    | some mapping => if canMerge q inner then (merge q inner, [mapping]) else (q, [])
    | none => (q, [])
  | some (.join kind left right condition) =>
    let source : Node := .join kind left right condition
    ({ q with source := some (source.mapSources fun s => (skipJoined q.projectsStar s).1) },
      source.sourceSelects.flatMap fun s => (skipJoined q.projectsStar s).2)
  | _ => (q, [])

/-- The inner selects first. -/
def flatten : Node → Node × List Mapping :=
  Node.fold fun s =>
    let inner := s.children.flatMap Prod.snd
    match s.map Prod.fst with
    | .select q =>
      let (q, own) := flattenSelect q
      (.select q, inner ++ own)
    | s => (.mk s, inner)

def mergeSources (n : Node) : Node :=
  let (n, mappings) := flatten n
  n.remap mappings

def sources : Pass :=
  { name := "redundant_subquery_removal"
    description := "Inlines pass-through and filter-only subqueries into their parent"
    transform := mergeSources }

end Pass

end QueryTree
