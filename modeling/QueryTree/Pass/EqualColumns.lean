import QueryTree.Pass.Pipeline
import QueryTree.Pass.Sources

/-! Columns of a source select that are declared by the same expression.

The first of equal columns stays, and references to the others turn to it.
-/

set_option autoImplicit false

namespace QueryTree.Pass

/-- A dropped column, and the equal one that stays. -/
structure Duplicate where
  name : String
  survivor : Binding Node

namespace Duplicate

def drops (found : List Duplicate) (name : String) : Bool := found.any (·.name == name)

/-- The later columns equal to `b` that are not dropped yet. -/
def addEqual (b : Binding Node) (found : List Duplicate) (later : List (Binding Node)) : List Duplicate :=
  later.foldl (fun found c =>
    if !drops found c.name && b.expr == c.expr then found ++ [⟨c.name, b⟩] else found) found

def collect : List (Binding Node) → List Duplicate → List Duplicate
  | [], found => found
  | b :: rest, found => collect rest (if drops found b.name then found else addEqual b found rest)

/-- The dropped columns of a select. -/
def of (s : Select Node) : List Duplicate := collect s.columns []

/-- The reference that takes the place of a dropped column. -/
def redirect (label : String) (d : Duplicate) : Binding Node :=
  ⟨d.name, .column ⟨label, d.survivor.name, d.survivor.expr.dataType⟩⟩

end Duplicate

/-- The dropped columns of each label: those of the last source of that label that has any. -/
abbrev Dropped := List (String × List Duplicate)

namespace Dropped

def of? (dropped : Dropped) (label : String) : Option (List Duplicate) :=
  (dropped.find? (·.1 == label)).map Prod.snd

def insert (dropped : Dropped) (s : Select Node) : Dropped :=
  match Duplicate.of s with
  | [] => dropped
  | found => (s.label, found) :: dropped.filter (·.1 != s.label)

/-- All the selects that other selects read from, the outer ones first. -/
def sources (n : Node) : List (Select Node) :=
  (n.subtrees.filterMap Node.select?).flatMap fun q => (q.source.map Node.sourceSelects).getD []

def find (n : Node) : Dropped := (sources n).foldl insert []

def mapping (label : String) (found : List Duplicate) : Mapping :=
  { label, columns := found.map (Duplicate.redirect label) }

end Dropped

def dropColumns (dropped : Dropped) : Node → Node
  | .select q =>
    match dropped.of? q.label with
    | some found => .select { q with columns := q.columns.filter fun b => !Duplicate.drops found b.name }
    | none => .select q
  | n => n

def mergeEqual (n : Node) : Node :=
  let dropped := Dropped.find n
  (n.mapUp (dropColumns dropped)).remap (dropped.map fun (label, found) => Dropped.mapping label found)

def equalColumns : Pass :=
  { name := "redundant_column_removal"
    description := "Merges duplicate column declarations and redirects their references"
    transform := mergeEqual }

end QueryTree.Pass
