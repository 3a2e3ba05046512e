import QueryTree.Pass.Pipeline
import QueryTree.Pass.Sources

/-! Aggregates over a group select, computed inside it.

A select that reads from a group select may ask for an aggregate over the group. The group select computes
the aggregate in a column of its own, which it may have already, and a reference to the column takes the place
of the aggregate.
-/

set_option autoImplicit false

namespace QueryTree.Pass

/-- Columns to add to the sources of a select, with the label of the source each belongs to. -/
abbrev Additions := List (String × Binding Node)

namespace Additions

def of (added : Additions) (label : String) : List (Binding Node) :=
  (added.filter (·.1 == label)).map Prod.snd

end Additions

def candidate (n : Nat) : String := "__agg" ++ toString n

/-- The first candidate from `start` on that is not taken; one of as many as there are names and one more
is free. -/
def freshName (taken : List String) (start : Nat) : String :=
  (((List.range (taken.length + 1)).map fun i => candidate (start + i)).find? fun name =>
    !taken.contains name).getD (candidate start)

/-- The name of the column of `group` that is `expr`, added when there is none. -/
def columnFor (group : Select Node) (expr : Node) : StateM Additions String := fun added =>
  let columns := group.columns ++ Additions.of added group.label
  match columns.find? (·.expr == expr) with
  | some b => (b.name, added)
  | none =>
    let name := freshName (columns.map (·.name)) columns.length
    (name, added ++ [(group.label, ⟨name, expr⟩)])

/-- The last group of a name counts. -/
def groupNamed? (groups : List (Select Node)) (label : String) : Option (Select Node) :=
  groups.reverse.find? (·.label == label)

/-- Refer to columns of the groups instead of aggregates over them; nested queries are left alone. -/
def liftAggregates (groups : List (Select Node)) : Node → StateM Additions Node :=
  Node.para fun s =>
    match s with
    | .groupAggregate label inGroup asQuery type =>
      match groupNamed? groups label with
      | some group => return .column ⟨label, ← columnFor group inGroup.1, type⟩
      | none => return .groupAggregate label (← inGroup.2) (← asQuery.2) type
    | .select _ | .subquery .. => pure (.mk (s.map Prod.fst))
    | s => return .mk (← s.traverse Prod.snd)

/-- The clauses that may refer to columns of the sources. -/
def liftClauses (groups : List (Select Node)) (q : Select Node) : StateM Additions (Select Node) := do
  let lift := liftAggregates groups
  let columns ← q.columns.mapM (·.traverse lift)
  let filter ← q.filter.mapM lift
  let groupBy ← q.groupBy.mapM lift
  let orderBy ← q.orderBy.mapM (·.traverse lift)
  return { q with columns, filter, groupBy, orderBy }

def addColumns (added : Additions) (source : Select Node) : Node :=
  .select { source with columns := source.columns ++ Additions.of added source.label }

/-- A select that needs no new column stays as it is. -/
def liftFrom (source : Node) (q : Select Node) : Select Node :=
  match liftClauses source.sourceSelects q [] with
  | (_, []) => q
  | (lifted, added) => { lifted with source := some (source.mapSources (addColumns added)) }

def liftSelect : Node → Node
  | .select q =>
    match q.source with
    | some source => .select (liftFrom source q)
    | none => .select q
  | n => n

def groupAggregates : Pass :=
  { name := "aggregate_rewriting"
    description := "Lifts group aggregates into their grouped select when it is a direct source"
    transform := Node.mapUp liftSelect }

end QueryTree.Pass
