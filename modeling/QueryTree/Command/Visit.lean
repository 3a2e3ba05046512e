import QueryTree.Command.Statement

/-! Writing a tree by a walk over it, and the texts of expressions.

The formatter goes through a tree once. It records a slot for every literal, placeholder and named parameter it
comes to, and the number of slots before it is the number of the marker. Texts are put together from those of the
parts after the parts have been visited, so that what is visited first has to be written first.
-/

set_option autoImplicit false

namespace QueryTree

/-- What the formatter keeps while it goes through a tree. -/
structure Formatter where
  slots : List Slot := []
  /-- Literals are written into the text. -/
  inline : Bool := false
  /-- The labels of the queries around, innermost first. -/
  scopes : List String := []
  deriving DecidableEq, Repr

abbrev Formatting := StateT Formatter (Except CompileError)

/-- A visit of a node, which gives its text. -/
abbrev Visit := Formatting String

/-- The visits of a node by where it stands. -/
structure Visited where
  node : Node
  expr : Visit
  source : Visit
  query : Visit
  statement : Visit
  definition : Visit
  constraint : Visit
  action : Visit

namespace Visit

/-- A new slot, and the marker of its number. -/
def parameter (d : Dialect) (source : SlotSource) (type : DataType) : Visit := do
  let before := (← get).slots
  modify fun f => { f with slots := before ++ [⟨source, type⟩] }
  return d.marker before.length

def inlined (v : Visit) : Visit := do
  let saved := (← get).inline
  modify fun f => { f with inline := true }
  let text ← v
  modify fun f => { f with inline := saved }
  return text

def within (label : String) (v : Visit) : Visit := do
  modify fun f => { f with scopes := label :: f.scopes }
  let text ← v
  modify fun f => { f with scopes := f.scopes.tail }
  return text

def unsupported (kind : Kind) : Visit := throw (.unsupportedNode kind)

/-- A part that may be missing, behind some words. -/
def part (words : String) (o : Option Visit) : Formatting (List String) :=
  match o with
  | some v => return [words ++ (← v)]
  | none => return []

end Visit

def parenthesize (text : String) : String := "(" ++ text ++ ")"

namespace Dialect

variable (d : Dialect)

def visitOperand (v : Visited) : Visit := do
  let text ← v.expr
  return if d.isOperation v.node then parenthesize text else text

def visitConstant (value : Value) (type : DataType) : Visit := do
  if (← get).inline || value.isNull then StateT.lift (d.literal value)
  else Visit.parameter d (.literal value) type

def visitNullTest (op : BinaryOp) (operand : Visited) : Visit := do
  let text ← d.visitOperand operand
  return text ++ if op = .eq then " IS NULL" else " IS NOT NULL"

def visitBinary (op : BinaryOp) (left right : Visited) : Visit :=
  if op.isEquality && right.node.constant? = some .null then d.visitNullTest op left
  else if op.isEquality && left.node.constant? = some .null then d.visitNullTest op right
  else do
    let leftText ← d.visitOperand left
    let rightText ← d.visitOperand right
    return leftText ++ " " ++ op.sign ++ " " ++ rightText

def visitUnary (op : UnaryOp) (operand : Visited) : Visit := do
  let text ← d.visitOperand operand
  return match op with
  | .not => "NOT " ++ text
  | .negate => "-" ++ text
  | .isNull => text ++ " IS NULL"
  | .isNotNull => text ++ " IS NOT NULL"

def visitList (visited : List Visited) : Visit := do
  let items ← visited.mapM (·.expr)
  return ", ".intercalate items

def visitMembership : List Visited → Visit
  | [] => throw (.invalidNode "IN without operand")
  | [_] => throw (.invalidNode "IN without items")
  | sought :: items => do
    let operand ← d.visitOperand sought
    let list ← visitList items
    return operand ++ " IN (" ++ list ++ ")"

def visitCast (type : DataType) : List Visited → Visit
  | [argument] => do
    let text ← argument.expr
    let target ← StateT.lift (d.typeName type)
    return "CAST(" ++ text ++ " AS " ++ target ++ ")"
  | _ => throw (.invalidNode "CAST takes one argument")

def visitOperator (s : RoutineSpelling) (text : String) (argument : Visited) : Visit := do
  let operand ← d.visitOperand argument
  return text ++ " " ++ s.name ++ " " ++ s.opening ++ operand ++ s.closing

def visitSpelled (s : RoutineSpelling) (arguments : List Visited) : Visit :=
  if s.isOperator then
    match arguments with
    | [] => throw (.invalidNode ("operator " ++ s.name ++ " without operands"))
    | first :: rest => do
      let text ← d.visitOperand first
      rest.foldlM (d.visitOperator s) text
  else do
    let list ← visitList arguments
    return s.name ++ "(" ++ s.opening ++ list ++ s.closing ++ ")"

def visitCall (routine : Routine) (arguments : List Visited) (type : DataType) : Visit :=
  match routine with
  | .isIn => d.visitMembership arguments
  | .cast => d.visitCast type arguments
  | routine =>
    match d.routine routine with
    | some s => d.visitSpelled s arguments
    | none => throw (.unsupportedRoutine routine d.name)

def visitAggregate (kind : AggregateKind) (argument : Option Visited) (distinct : Bool) : Visit := do
  let text ← match argument with
    | some argument => argument.expr
    | none => pure "*"
  return d.aggregate kind ++ "(" ++ (if distinct then "DISTINCT " else "") ++ text ++ ")"

def visitSubquery (kind : SubqueryKind) (operand : Option Visited) (query : Visited) : Visit :=
  if query.node.select?.isNone then throw (.unsupportedNode query.node.kind)
  else match kind with
  | .scalar => do return parenthesize (← query.query)
  | .exists => do return "EXISTS " ++ parenthesize (← query.query)
  | .isIn =>
    match operand with
    | none => throw (.invalidNode "IN subquery without operand")
    | some operand => do
      let sought ← d.visitOperand operand
      let text ← query.query
      return sought ++ " IN " ++ parenthesize text

def visitOrder (item : OrderItem Visited) : Visit := do
  let text ← item.expr.expr
  return match item.direction with
  | .ascending => text
  | .descending => text ++ " DESC"

def visitOrders (items : List (OrderItem Visited)) : Visit := do
  let texts ← items.mapM visitOrder
  return ", ".intercalate texts

def visitOver (source : Visited) (orderBy : List (OrderItem Visited)) : Visit := do
  let text ← source.expr
  if orderBy.isEmpty then return text ++ " OVER ()"
  else do
    let order ← visitOrders orderBy
    return text ++ " OVER (ORDER BY " ++ order ++ ")"

def visitBranch (text : String) (b : Branch Visited) : Visit := do
  let condition ← b.condition.expr
  let result ← b.result.expr
  return text ++ " WHEN " ++ condition ++ " THEN " ++ result

def visitConditional (branches : List (Branch Visited)) (otherwise : Option Visited) : Visit := do
  let text ← branches.foldlM visitBranch "CASE"
  match otherwise with
  | some otherwise => return text ++ " ELSE " ++ (← otherwise.expr) ++ " END"
  | none => return text ++ " END"

/-- Only the form that is written is visited. -/
def visitGroupAggregate (label : String) (inGroup asQuery : Visited) : Visit := do
  if (← get).scopes.head? = some label then inGroup.expr else asQuery.expr

end Dialect

end QueryTree
