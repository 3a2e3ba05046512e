import QueryTree.Dialect.Basic
import QueryTree.Node.Alike
import QueryTree.Node.Build
import QueryTree.Number.Whole

/-! Paging by row numbers, for databases that cannot skip rows.

A select with a skip becomes a select over itself with one more column, the number of each row, and keeps the
rows whose number lies in the page. The outer select keeps the label, so references from around it stay valid.
A distinct select is first moved into a source of its own, for a row number would make every row different.
-/

set_option autoImplicit false

namespace QueryTree.Amend

/-- The column that holds the number of a row. -/
def rowNumberName : String := "__rownum"

/-- Literals, parameters and nested queries are no order for a window. -/
def ordersWindow : Node → Bool
  | .constant .. | .placeholder .. | .parameter .. | .subquery .. | .groupAggregate .. => false
  | _ => true

/-- `(SELECT NULL)`, which orders nothing. -/
def anyOrder : Node := .scalarQuery { label := "", columns := [⟨"", .null .unknown⟩] }

/-- The order of the query, else its columns as far as they can order a window, else any order. -/
def windowOrder (s : Select Node) : List (OrderItem Node) :=
  let explicit := s.columns.filter fun b => !b.isWildcard && ordersWindow b.expr
  if !s.orderBy.isEmpty then s.orderBy
  else if !explicit.isEmpty then explicit.map fun b => { expr := b.expr }
  else [{ expr := anyOrder }]

/-- The sum of two integer literals, as narrow as the second where it fits; other sums stay. -/
def upperBound (skip take : Node) : Node :=
  let sum : Option Node := do
    let s ← skip.constant?
    let t ← take.constant?
    let total := (← s.integer?).toInt + (← t.integer?).toInt
    if !fitsInt64 total then none
    else match t with
      | .int32 _ =>
        if fitsInt32 total then some (.literal (.int32 (Int32.ofInt total)))
        else some (.literal (.int64 (Int64.ofInt total)))
      | _ => some (.literal (.int64 (Int64.ofInt total)))
  sum.getD (.ofBinary .add skip take)

/-- The columns of a select, read from a source that exposes the same names. -/
def columnsFrom (label : String) (columns : List (Binding Node)) : List (Binding Node) :=
  columns.map fun b => ⟨b.name, .column { label, name := b.name, type := b.expr.dataType }⟩

/-- A select without its order and limits, under another label. -/
def unpaged (s : Select Node) (label : String) (columns : List (Binding Node)) : Select Node :=
  { label, columns, source := s.source, filter := s.filter, groupBy := s.groupBy, distinct := s.distinct
    forUpdate := s.forUpdate, type := s.type }

/-- The rows of a select, numbered. -/
def numbered (s : Select Node) (label : String) : Select Node :=
  let columns := if s.columns.isEmpty then [Binding.everything] else s.columns
  let number := Node.window (.call .rowNumber [] .int64) (windowOrder s)
  { unpaged s label (columns ++ [⟨rowNumberName, number⟩]) with distinct := false }

/-- The page of a select that is not distinct. -/
def window (s : Select Node) (skip : Node) : Select Node :=
  let inner := s.label ++ "_inner"
  let number := Node.column { label := inner, name := rowNumberName, type := .int64 }
  let lower := Node.ofBinary .gt number skip
  { label := s.label
    columns := if s.columns.any (·.isWildcard) then [] else columnsFrom inner s.columns
    source := some (.select (numbered s inner))
    filter := some (match s.take with
      | some take => .both lower (.ofBinary .ltEq number (upperBound skip take))
      | none => lower)
    orderBy := [{ expr := number }]
    type := s.type }

/-- The column of a distinct select that an order item names: one with the same expression, or under a
wildcard the column that the item refers to. -/
def orderedName? (s : Select Node) (expr : Node) : Option String :=
  match s.columns.find? fun b => b.expr == expr with
  | some b => some b.name
  | none => if s.projectsStar then expr.column?.map (·.name) else none

/-- A distinct select as the source of one that pages; the order is said of the source's columns. -/
def overDistinct (s : Select Node) : Select Node :=
  let inner := s.label ++ "_distinct"
  { label := s.label
    columns := if s.projectsStar then [] else columnsFrom inner s.columns
    source := some (.select (unpaged s inner s.columns))
    orderBy := s.orderBy.filterMap fun o => (orderedName? s o.expr).map fun name =>
      { expr := .column { label := inner, name, type := o.expr.dataType }, direction := o.direction }
    skip := s.skip
    take := s.take
    type := s.type }

def paginate (s : Select Node) (skip : Node) : Select Node :=
  window (if s.distinct then overDistinct s else s) skip

def rowNumbers : Amender where
  name := "row_number_pagination"
  amend := Node.mapUp fun n =>
    match n with
    | .select s =>
      match s.skip with
      | some skip => .select (paginate s skip)
      | none => n
    | n => n

end QueryTree.Amend
