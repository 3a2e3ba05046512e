import QueryTree.Command.Basic
import QueryTree.Node.Build

/-! The texts of a node by where it stands, and the texts of expressions.

The same node is written differently as an expression, as a source of rows, as the query inside parentheses
and as a statement. `Spelled` holds these texts for a child, so that a layer's texts are put together from
its children's without looking further down than the child itself. These texts are wordings: they say what stands
where, and leave it to the formatter to number the slots.
-/

set_option autoImplicit false

namespace QueryTree

/-- What surrounds a node. -/
structure Place where
  /-- Literals are written into the text. -/
  inline : Bool := false
  /-- The label of the innermost query around the node. -/
  scope : Option String := none
  deriving DecidableEq, Repr

abbrev Spelling := Place → Except CompileError Wording

structure Spelled where
  node : Node
  expr : Spelling
  source : Spelling
  /-- A query without parentheses. -/
  query : Spelling
  statement : Spelling
  /-- A column of a table definition. -/
  definition : Spelling
  constraint : Spelling
  /-- What an `ALTER TABLE` does, after the name of the table. -/
  action : Spelling

def Place.inlined (p : Place) : Place := { p with inline := true }

def Place.within (p : Place) (label : String) : Place := { p with scope := some label }

/-- The wording of a slot, which has no text of its own. -/
def slotOf (source : SlotSource) (type : DataType) : Wording := [.slot ⟨source, type⟩]

/-- Every wording in turn, with a separator between. -/
def spellList (separator : String) (spellings : List Spelling) : Spelling := fun p => do
  return .joined separator (← spellings.mapM (· p))

def unsupported (kind : Kind) : Spelling := fun _ => .error (.unsupportedNode kind)

namespace BinaryOp

def sign : BinaryOp → String
  | .eq => "="
  | .notEq => "<>"
  | .lt => "<"
  | .ltEq => "<="
  | .gt => ">"
  | .gtEq => ">="
  | .and => "AND"
  | .or => "OR"
  | .add => "+"
  | .subtract => "-"
  | .multiply => "*"
  | .divide => "/"
  | .modulo => "%"

def isEquality : BinaryOp → Bool
  | .eq | .notEq => true
  | _ => false

end BinaryOp

namespace Dialect

variable (d : Dialect)

def ident (name : String) : Wording := .ofText (d.quoteIdent name)

/-- Quoted names with commas between. -/
def identList (names : List String) : String := ", ".intercalate (names.map d.quoteIdent)

/-- A reference to a column; every column of a source is not quoted, and a label may be missing. -/
def columnText (c : Column) : String :=
  let name := if c.name == Node.wildcard then c.name else d.quoteIdent c.name
  if c.label.isEmpty then name else d.quoteIdent c.label ++ "." ++ name

/-- Written with an operator of its own, so grouped by parentheses as an operand. -/
def isOperation : Node → Bool
  | .binary .. | .unary .. => true
  | .call routine _ _ => routine = .isIn || ((d.routine routine).map (·.isOperator)).getD false
  | _ => false

def operand (s : Spelled) : Spelling := fun p => do
  let w ← s.expr p
  return if d.isOperation s.node then w.parenthesized else w

def constantExpr (value : Value) (type : DataType) : Spelling := fun p =>
  if p.inline || value.isNull then return .ofText (← d.literal value)
  else return slotOf (.literal value) type

/-- The operand of a comparison with a null literal. -/
def nullTested (op : BinaryOp) (left right : Spelled) : Option Spelled :=
  if !op.isEquality then none
  else if right.node.constant? = some .null then some left
  else if left.node.constant? = some .null then some right
  else none

/-- A comparison with null is never true, so the test that was meant is written. -/
def binaryExpr (op : BinaryOp) (left right : Spelled) : Spelling := fun p =>
  match nullTested op left right with
  | some tested => do
    return (← d.operand tested p) ++ .ofText (if op = .eq then " IS NULL" else " IS NOT NULL")
  | none => do
    return (← d.operand left p) ++ .ofText (" " ++ op.sign ++ " ") ++ (← d.operand right p)

def unaryExpr (op : UnaryOp) (operand : Spelled) : Spelling := fun p => do
  let w ← d.operand operand p
  return match op with
  | .not => .ofText "NOT " ++ w
  | .negate => .ofText "-" ++ w
  | .isNull => w ++ .ofText " IS NULL"
  | .isNotNull => w ++ .ofText " IS NOT NULL"

def exprList (spelled : List Spelled) : Spelling := spellList ", " (spelled.map (·.expr))

def membershipExpr : List Spelled → Spelling
  | [] => fun _ => .error (.invalidNode "IN without operand")
  | [_] => fun _ => .error (.invalidNode "IN without items")
  | sought :: items => fun p => do
    return (← d.operand sought p) ++ .ofText " IN (" ++ (← exprList items p) ++ .ofText ")"

def castExpr (type : DataType) : List Spelled → Spelling
  | [argument] => fun p => do
    let w ← argument.expr p
    return .ofText "CAST(" ++ w ++ .ofText (" AS " ++ (← d.typeName type) ++ ")")
  | _ => fun _ => .error (.invalidNode "CAST takes one argument")

/-- The arguments after the first, each behind the operator. -/
def operatorTail (s : RoutineSpelling) : List Spelled → Spelling
  | [] => fun _ => .ok []
  | argument :: rest => fun p => do
    let w ← d.operand argument p
    let after ← operatorTail s rest p
    return .ofText (" " ++ s.name ++ " " ++ s.opening) ++ w ++ .ofText s.closing ++ after

def spelledCall (s : RoutineSpelling) (arguments : List Spelled) : Spelling := fun p =>
  if s.isOperator then
    match arguments with
    | [] => .error (.invalidNode ("operator " ++ s.name ++ " without operands"))
    | first :: rest => do return (← d.operand first p) ++ (← d.operatorTail s rest p)
  else do
    return .ofText (s.name ++ "(" ++ s.opening) ++ (← exprList arguments p) ++ .ofText (s.closing ++ ")")

def callExpr (routine : Routine) (arguments : List Spelled) (type : DataType) : Spelling :=
  match routine with
  | .isIn => d.membershipExpr arguments
  | .cast => d.castExpr type arguments
  | routine =>
    match d.routine routine with
    | some s => d.spelledCall s arguments
    | none => fun _ => .error (.unsupportedRoutine routine d.name)

def aggregateExpr (kind : AggregateKind) (argument : Option Spelled) (distinct : Bool) : Spelling :=
  fun p => do
  let w ← match argument with
    | some argument => argument.expr p
    | none => pure (.ofText "*")
  return .ofText (d.aggregate kind ++ "(" ++ if distinct then "DISTINCT " else "") ++ w ++ .ofText ")"

def subqueryExpr (kind : SubqueryKind) (operand : Option Spelled) (query : Spelled) : Spelling := fun p =>
  if query.node.select?.isNone then .error (.unsupportedNode query.node.kind)
  else match kind with
  | .scalar => do return (← query.query p).parenthesized
  | .exists => do return .ofText "EXISTS " ++ (← query.query p).parenthesized
  | .isIn =>
    match operand with
    | none => .error (.invalidNode "IN subquery without operand")
    | some operand => do
      return (← d.operand operand p) ++ .ofText " IN " ++ (← query.query p).parenthesized

def orderItem (item : OrderItem Spelled) : Spelling := fun p => do
  let w ← item.expr.expr p
  return match item.direction with
  | .ascending => w
  | .descending => w ++ .ofText " DESC"

def orderList (items : List (OrderItem Spelled)) : Spelling := spellList ", " (items.map orderItem)

def overExpr (source : Spelled) (orderBy : List (OrderItem Spelled)) : Spelling := fun p => do
  let w ← source.expr p
  if orderBy.isEmpty then return w ++ .ofText " OVER ()"
  else return w ++ .ofText " OVER (ORDER BY " ++ (← orderList orderBy p) ++ .ofText ")"

def branchText (b : Branch Spelled) : Spelling := fun p => do
  return .ofText " WHEN " ++ (← b.condition.expr p) ++ .ofText " THEN " ++ (← b.result.expr p)

def conditionalExpr (branches : List (Branch Spelled)) (otherwise : Option Spelled) : Spelling := fun p => do
  let tests ← spellList "" (branches.map branchText) p
  let last ← match otherwise with
    | some otherwise => do pure (.ofText " ELSE " ++ (← otherwise.expr p))
    | none => pure []
  return .ofText "CASE" ++ tests ++ last ++ .ofText " END"

/-- Inside the group select an aggregate is written in its form there, elsewhere as a query. -/
def groupAggregateExpr (label : String) (inGroup asQuery : Spelled) : Spelling := fun p =>
  if p.scope = some label then inGroup.expr p else asQuery.expr p

end Dialect

end QueryTree
