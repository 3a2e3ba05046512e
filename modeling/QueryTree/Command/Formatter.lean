import QueryTree.Command.Visit

/-! Writing queries and statements, and the command text of any tree.

The parts of a query are visited in the order in which they are written: the row limit that stands in front, the
columns, the source, the filter, the groups, the order and what is skipped and taken. A tree is written by one
formatter that starts without slots.
-/

set_option autoImplicit false

namespace QueryTree

namespace Dialect

variable (d : Dialect)

/-! ### Queries -/

def visitColumn (b : Binding Visited) : Visit :=
  if b.isWildcard then return Node.wildcard
  else do
    let text ← b.expr.expr
    let keepsName := match b.expr.node.column? with
      | some c => c.name == b.name
      | none => false
    return if b.name.isEmpty || keepsName then text else text ++ (" AS " ++ d.quoteIdent b.name)

def visitTop (s : Select Visited) : Visit :=
  match s.take, s.skip with
  | some take, none =>
    if d.limitStyle = .limitOffset then return ""
    else do return "TOP (" ++ (← take.expr) ++ ") "
  | _, _ => return ""

def visitColumns (columns : List (Binding Visited)) : Visit := do
  let texts ← columns.mapM d.visitColumn
  return if columns.isEmpty then Node.wildcard else ", ".intercalate texts

def visitHead (s : Select Visited) : Visit := do
  let top ← d.visitTop s
  let columns ← d.visitColumns s.columns
  return (if s.distinct then "SELECT DISTINCT " else "SELECT ") ++ top ++ columns

def visitGroupBy (groups : List Visited) : Formatting (List String) :=
  if groups.isEmpty then return [] else Visit.part "GROUP BY " (some (visitList groups))

def visitOrderBy (s : Select Visited) : Formatting (List String) :=
  if !s.orderBy.isEmpty then Visit.part "ORDER BY " (some (visitOrders s.orderBy))
  else if s.skip.isSome && d.limitStyle ≠ .limitOffset then return ["ORDER BY (SELECT NULL)"]
  else return []

def visitLimitBefore (s : Select Visited) : Formatting (List String) :=
  match s.take, s.skip, d.unboundedLimit with
  | some take, _, _ => Visit.part "LIMIT " (some take.expr)
  | none, some _, some unbounded => return ["LIMIT " ++ unbounded]
  | none, _, _ => return []

def visitFetch (take : Option Visited) : Formatting (List String) :=
  match take with
  | some take => do return ["FETCH NEXT " ++ (← take.expr) ++ " ROWS ONLY"]
  | none => return []

def visitLimit (s : Select Visited) : Formatting (List String) :=
  match d.limitStyle with
  | .limitOffset => do
    let limit ← d.visitLimitBefore s
    let offset ← Visit.part "OFFSET " (s.skip.map (·.expr))
    return limit ++ offset
  | .offsetFetch | .rowNumber =>
    match s.skip with
    | none => return []
    | some skip => do
      let offset ← skip.expr
      let fetch ← visitFetch s.take
      return ("OFFSET " ++ offset ++ " ROWS") :: fetch

def visitSelect (s : Select Visited) : Visit := Visit.within s.label do
  let head ← d.visitHead s
  let source ← Visit.part "FROM " (s.source.map (·.source))
  let filter ← Visit.part "WHERE " (s.filter.map (·.expr))
  let groups ← visitGroupBy s.groupBy
  let order ← d.visitOrderBy s
  let limit ← d.visitLimit s
  let lock := if s.forUpdate then d.forUpdate else none
  return " ".intercalate ([head] ++ source ++ filter ++ groups ++ order ++ limit ++ lock.toList)

def visitJoin (kind : JoinKind) (left right : Visited) (condition : Option Visited) : Visit :=
  match d.joinKeyword kind with
  | none => throw (.unsupportedNode .join)
  | some keyword => do
    let leftText ← left.source
    let rightText ← right.source
    let text := leftText ++ " " ++ keyword ++ " " ++
      if right.node.kind = .join then parenthesize rightText else rightText
    match condition with
    | some condition => return text ++ " ON " ++ (← condition.expr)
    | none =>
      return if kind = .outerApply && "LEFT".toList.isPrefixOf keyword.toList then text ++ " ON TRUE" else text

/-! ### Changes of rows -/

def visitValues (values : List Visited) : Visit :=
  if values.isEmpty then return "DEFAULT VALUES"
  else do return "VALUES " ++ parenthesize (← visitList values)

def visitInsert (i : Insert Visited) : Visit :=
  if i.columns.length ≠ i.values.length then
    throw (.invalidNode ("insert into " ++ i.table ++ " has " ++ toString i.columns.length ++
      " columns and " ++ toString i.values.length ++ " values"))
  else do
    let readsBack (style : ReturningStyle) : Bool := !i.returning.isEmpty && d.returningStyle = style
    let inserted := ", ".intercalate (i.returning.map fun c => "INSERTED." ++ d.quoteIdent c)
    let columns := if i.columns.isEmpty then none else some ("(" ++ d.identList i.columns ++ ")")
    let output := if readsBack .output then some ("OUTPUT " ++ inserted) else none
    let values ← visitValues i.values
    let returning := if readsBack .returning then some ("RETURNING " ++ d.identList i.returning) else none
    return " ".intercalate (["INSERT INTO " ++ d.quoteIdent i.table] ++ columns.toList ++ output.toList ++ [values] ++
      returning.toList)

def visitAssignment (b : Binding Visited) : Visit := do
  let text ← b.expr.expr
  return d.quoteIdent b.name ++ " = " ++ text

def visitAssignments (assignments : List (Binding Visited)) : Visit := do
  let texts ← assignments.mapM d.visitAssignment
  return ", ".intercalate texts

def visitUpdate (u : Update Visited) : Visit :=
  if u.assignments.isEmpty then throw (.invalidNode ("update of " ++ u.table ++ " assigns nothing"))
  else do
    let assignments ← d.visitAssignments u.assignments
    let filter ← Visit.part "WHERE " (u.filter.map (·.expr))
    return " ".intercalate (["UPDATE " ++ d.quoteIdent u.table, "SET " ++ assignments] ++ filter)

def visitDelete (owner : String) (label : Option String) (filter : Option Visited) : Visit := do
  let filter ← Visit.part "WHERE " (filter.map (·.expr))
  return " ".intercalate ([d.deleteFrom owner label] ++ filter)

/-! ### Definitions -/

def visitCreateTable (t : CreateTable Visited) : Visit := do
  let opening := match (if t.ifNotExists then d.tableGuard t.table else none) with
    | some guard => guard ++ " CREATE TABLE "
    | none => if t.ifNotExists then "CREATE TABLE IF NOT EXISTS " else "CREATE TABLE "
  let columns ← t.columns.mapM (·.definition)
  let constraints ← t.constraints.mapM (·.constraint)
  return opening ++ d.quoteIdent t.table ++ " " ++ parenthesize (", ".intercalate (columns ++ constraints))

def visitDefinition (name : String) (type : DataType) (constraints : List Visited) : Visit := do
  let typeName ← StateT.lift (d.typeName type)
  let texts ← constraints.mapM (·.constraint)
  return " ".intercalate ((d.quoteIdent name ++ " " ++ typeName) :: texts)

def visitConstraintBody : ConstraintKind Visited → Visit
  | .primaryKey columns clustered =>
    return d.withNames ("PRIMARY KEY" ++ if d.clusteredIndexes then clustering clustered else "") columns
  | .unique columns => return d.withNames "UNIQUE" columns
  | .foreignKey key => return d.foreignKeyText key
  | .notNull => return "NOT NULL"
  | .autoIncrement => return d.autoIncrement
  | .default value => do return "DEFAULT " ++ (← value.expr.inlined)

def visitConstraint (name : Option String) (kind : ConstraintKind Visited) : Visit := do
  let body ← d.visitConstraintBody kind
  return match name with
  | some name => "CONSTRAINT " ++ d.quoteIdent name ++ " " ++ body
  | none => body

def visitAction (change : ConstraintChange) (target : Visited) : Visit :=
  match change with
  | .add => do return "ADD " ++ (← target.constraint)
  | .drop =>
    match constraintName? target.node with
    | some name => return "DROP CONSTRAINT " ++ d.quoteIdent name
    | none => throw (.invalidNode "only named constraints can be dropped")

def visitAlterTable (owner : String) (actions : List Visited) : Visit := do
  let texts ← actions.mapM fun a => do return "ALTER TABLE " ++ d.quoteIdent owner ++ " " ++ (← a.action)
  return "; ".intercalate texts

def visitCreateIndex (i : CreateIndex Visited) : Visit := do
  let guard := if i.ifNotExists then d.indexGuard i.table i.name else none
  let words := "CREATE " ++ (if i.unique then "UNIQUE " else "") ++
    (if i.clustered && d.clusteredIndexes then "CLUSTERED " else "") ++ "INDEX" ++
    (if i.ifNotExists && guard.isNone then " IF NOT EXISTS" else "")
  let columns := "ON " ++ d.quoteIdent i.table ++ " (" ++ ", ".intercalate (i.columns.map d.indexedText) ++ ")"
  let filter ← Visit.part "WHERE " (i.filter.map (·.expr.inlined))
  return " ".intercalate (guard.toList ++ [words, d.quoteIdent i.name, columns] ++ filter)

def visitEnum (name : String) (labels : List String) : Visit :=
  if d.nativeEnums then
    return "CREATE TYPE " ++ d.quoteIdent name ++ " AS ENUM (" ++ ", ".intercalate (labels.map d.quoteString) ++ ")"
  else Visit.unsupported .enumDefinition

/-! ### Sessions and lists -/

def visitSetArgument (v : Visited) : Visit :=
  match v.node.constant? with
  | some (.text name) => return d.quoteIdent name
  | some (.bool on) => return if on then "ON" else "OFF"
  | _ => v.expr.inlined

def visitSet (name : String) (arguments : List Visited) : Visit := do
  let texts ← arguments.mapM d.visitSetArgument
  return " ".intercalate (("SET " ++ name) :: texts)

/-- The texts that are there, with semicolons between. -/
def statementTexts (texts : List String) : String := "; ".intercalate (texts.filter fun s => !s.isEmpty)

def visitStatements (list : List Visited) : Visit := do
  let texts ← list.mapM (·.statement)
  return statementTexts texts

/-! ### Any tree -/

def visitExpr : Shape Visited → Visit
  | .column c => return d.columnText c
  | .constant value type => d.visitConstant value type
  | .placeholder index type => Visit.parameter d (.placeholder index) type
  | .parameter name type => Visit.parameter d (.named name) type
  | .binary op left right _ => d.visitBinary op left right
  | .unary op operand _ => d.visitUnary op operand
  | .call routine arguments type => d.visitCall routine arguments type
  | .aggregate kind argument distinct _ => d.visitAggregate kind argument distinct
  | .groupAggregate label inGroup asQuery _ => visitGroupAggregate label inGroup asQuery
  | .subquery kind operand query _ => d.visitSubquery kind operand query
  | .select s => do return parenthesize (← d.visitSelect s)
  | .window source orderBy => visitOver source orderBy
  | .conditional branches otherwise _ => visitConditional branches otherwise
  | s => Visit.unsupported s.kind

def visitSource : Shape Visited → Visit
  | .table name label _ => return d.quoteIdent name ++ " AS " ++ d.quoteIdent label
  | .select s => do return parenthesize (← d.visitSelect s) ++ " AS " ++ d.quoteIdent s.label
  | .join kind left right condition => d.visitJoin kind left right condition
  | s => Visit.unsupported s.kind

def visitQuery : Shape Visited → Visit
  | .select s => d.visitSelect s
  | s => Visit.unsupported s.kind

def visitStatement : Shape Visited → Visit
  | .select s => d.visitSelect s
  | .insert i => d.visitInsert i
  | .update u => d.visitUpdate u
  | .delete owner label filter => d.visitDelete owner label filter
  | .createTable t => d.visitCreateTable t
  | .alterTable owner actions => d.visitAlterTable owner actions
  | .createIndex i => d.visitCreateIndex i
  | .enumDefinition name labels => d.visitEnum name labels
  | .setCommand name arguments => d.visitSet name arguments
  | .statements list => visitStatements list
  | s => d.visitExpr s

/-- One layer, from the visits of its children. -/
def visitLayer (s : Shape Visited) : Visited :=
  { node := .mk (s.map (·.node))
    expr := d.visitExpr s
    source := d.visitSource s
    query := d.visitQuery s
    statement := d.visitStatement s
    definition := match s with
      | .columnDefinition name type constraints => d.visitDefinition name type constraints
      | s => Visit.unsupported s.kind
    constraint := match s with
      | .constraint name kind => d.visitConstraint name kind
      | s => Visit.unsupported s.kind
    action := match s with
      | .constraintAction change target => d.visitAction change target
      | s => Visit.unsupported s.kind }

def visit : Node → Visited := Node.fold d.visitLayer

/-- The command text of a tree, with its slots. -/
def format (n : Node) : Except CompileError Formatted := do
  let result ← (d.visit n).statement.run {}
  return { text := result.1, slots := result.2.slots }

end Dialect

end QueryTree
