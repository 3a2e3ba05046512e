import QueryTree.Error
import QueryTree.Node.Fold

/-! Building nodes whose type follows from their parts, and the parts of a select. -/

set_option autoImplicit false

namespace QueryTree

namespace Node

/-- The name that stands for every column of a source. -/
def wildcard : String := "*"

/-- A literal, typed by its value. -/
def literal (value : Value) : Node := .constant value value.dataType

def null (type : DataType) : Node := .constant .null type

/-- A test is boolean; arithmetic has the type of its left operand. -/
def ofBinary (op : BinaryOp) (left right : Node) : Node :=
  .binary op left right (if op.isComparison || op.isLogical then .boolean else left.dataType)

def equal (left right : Node) : Node := ofBinary .eq left right

def both (left right : Node) : Node := ofBinary .and left right

def either (left right : Node) : Node := ofBinary .or left right

/-- Join nodes from the left; nothing for no nodes. -/
def joinAll (op : BinaryOp) : List Node → Option Node
  | [] => none
  | n :: rest => some (rest.foldl (ofBinary op) n)

def conjunction (ns : List Node) : Option Node := joinAll .and ns

def disjunction (ns : List Node) : Option Node := joinAll .or ns

def ofUnary (op : UnaryOp) (operand : Node) : Node :=
  .unary op operand (if op = .negate then operand.dataType else .boolean)

def negation (operand : Node) : Node := ofUnary .not operand

/-- The value of a query's first column. -/
def scalarQuery (query : Select Node) : Node :=
  .subquery .scalar none (.select query) ((query.columns.head?.map (·.expr.dataType)).getD .unknown)

def existsQuery (query : Select Node) : Node := .subquery .exists none (.select query) .boolean

/-- A join whose kind needs a condition has one. -/
def joined (kind : JoinKind) (left right : Node) (condition : Option Node) : Except CompileError Node :=
  if condition.isNone && !kind.isUnconditional then
    .error (.invalidNode (kind.name ++ " join requires a condition"))
  else .ok (.join kind left right condition)

end Node

namespace Column

/-- The column as a message names it. -/
def path (c : Column) : String := c.label ++ "." ++ c.name

/-- Names the same column; what type it is read as plays no part. -/
def sameAs (a b : Column) : Bool := a.label == b.label && a.name == b.name

end Column

namespace Binding

def isWildcard {α : Type} (b : Binding α) : Bool := b.name == Node.wildcard

/-- Every column of the source, beside the columns that are named. -/
def everything : Binding Node :=
  ⟨Node.wildcard, .column { label := "", name := Node.wildcard, type := .unknown }⟩

end Binding

namespace Select

def column? {α : Type} (s : Select α) (name : String) : Option (Binding α) :=
  s.columns.find? (·.name == name)

def columnIndex? {α : Type} (s : Select α) (name : String) : Option Nat :=
  s.columns.findIdx? (·.name == name)

/-- A reference from outside to one of the columns. -/
def reference? (s : Select Node) (name : String) : Option Node :=
  (s.column? name).map fun b => .column { label := s.label, name, type := b.expr.dataType }

/-- Exposes every column of its source: it names none, or a wildcard among others. -/
def projectsStar {α : Type} (s : Select α) : Bool := s.columns.isEmpty || s.columns.any (·.isWildcard)

/-- Neither filters, groups, orders, limits nor locks. -/
def isPlain {α : Type} (s : Select α) : Bool :=
  s.filter.isNone && s.groupBy.isEmpty && s.orderBy.isEmpty && !s.distinct && s.skip.isNone &&
    s.take.isNone && !s.forUpdate

end Select

end QueryTree
