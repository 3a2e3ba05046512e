import QueryTree.Command.Query

/-! The texts of statements, and the wording of any tree.

Statements of a list are separated by semicolons, those without a text left out. A tree that is no statement
is written as an expression.
-/

set_option autoImplicit false

namespace QueryTree

namespace Dialect

variable (d : Dialect)

def insertText (i : Insert Spelled) : Spelling := fun p =>
  if i.columns.length ≠ i.values.length then
    .error (.invalidNode ("insert into " ++ i.table ++ " has " ++ toString i.columns.length ++
      " columns and " ++ toString i.values.length ++ " values"))
  else
    let readsBack (style : ReturningStyle) : Bool := !i.returning.isEmpty && d.returningStyle = style
    let inserted := ", ".intercalate (i.returning.map fun c => "INSERTED." ++ d.quoteIdent c)
    clauses
      [some (fixed ("INSERT INTO " ++ d.quoteIdent i.table)),
        if i.columns.isEmpty then none else some (fixed ("(" ++ d.identList i.columns ++ ")")),
        if readsBack .output then some (fixed ("OUTPUT " ++ inserted)) else none,
        some (if i.values.isEmpty then fixed "DEFAULT VALUES"
          else fun p => do return .ofText "VALUES " ++ (← exprList i.values p).parenthesized),
        if readsBack .returning then some (fixed ("RETURNING " ++ d.identList i.returning)) else none] p

def assignment (b : Binding Spelled) : Spelling := clause (d.quoteIdent b.name ++ " = ") b.expr.expr

def updateText (u : Update Spelled) : Spelling :=
  if u.assignments.isEmpty then fun _ => .error (.invalidNode ("update of " ++ u.table ++ " assigns nothing"))
  else clauses
    [some (fixed ("UPDATE " ++ d.quoteIdent u.table)),
      some (clause "SET " (spellList ", " (u.assignments.map d.assignment))),
      u.filter.map fun filter => clause "WHERE " filter.expr]

def deleteText (owner : String) (label : Option String) (filter : Option Spelled) : Spelling :=
  clauses [some (fixed (d.deleteFrom owner label)), filter.map fun filter => clause "WHERE " filter.expr]

def createTableText (t : CreateTable Spelled) : Spelling := fun p => do
  let opening := match (if t.ifNotExists then d.tableGuard t.table else none) with
    | some guard => guard ++ " CREATE TABLE "
    | none => if t.ifNotExists then "CREATE TABLE IF NOT EXISTS " else "CREATE TABLE "
  let parts ← spellList ", " (t.columns.map (·.definition) ++ t.constraints.map (·.constraint)) p
  return .ofText (opening ++ d.quoteIdent t.table ++ " ") ++ parts.parenthesized

def definitionText (name : String) (type : DataType) (constraints : List Spelled) : Spelling := fun p => do
  let typeName ← d.typeName type
  clauses (some (fixed (d.quoteIdent name ++ " " ++ typeName)) ::
    constraints.map fun c => some c.constraint) p

end Dialect

def ReferentialAction.text? : ReferentialAction → Option String
  | .noAction => none
  | .cascade => some "CASCADE"
  | .setNull => some "SET NULL"
  | .restrict => some "RESTRICT"

namespace Dialect

variable (d : Dialect)

/-- Names in parentheses after some words; only the words where there are no names. -/
def withNames (words : String) (names : List String) : String :=
  if names.isEmpty then words else words ++ " (" ++ d.identList names ++ ")"

def foreignKeyText (key : ForeignKey) : String :=
  (if key.columns.isEmpty then "" else "FOREIGN KEY (" ++ d.identList key.columns ++ ") ") ++
    "REFERENCES " ++ d.quoteIdent key.referencedTable ++ " (" ++ d.identList key.referencedColumns ++ ")" ++
    ((key.onDelete.text?.map (" ON DELETE " ++ ·)).getD "") ++
    ((key.onUpdate.text?.map (" ON UPDATE " ++ ·)).getD "")

def clustering : Option Bool → String
  | some true => " CLUSTERED"
  | some false => " NONCLUSTERED"
  | none => ""

def constraintBody : ConstraintKind Spelled → Spelling
  | .primaryKey columns clustered =>
    fixed (d.withNames ("PRIMARY KEY" ++ if d.clusteredIndexes then clustering clustered else "") columns)
  | .unique columns => fixed (d.withNames "UNIQUE" columns)
  | .foreignKey key => fixed (d.foreignKeyText key)
  | .notNull => fixed "NOT NULL"
  | .autoIncrement => fixed d.autoIncrement
  | .default value => fun p => clause "DEFAULT " value.expr p.inlined

def constraintText (name : Option String) (kind : ConstraintKind Spelled) : Spelling :=
  match name with
  | some name => clause ("CONSTRAINT " ++ d.quoteIdent name ++ " ") (d.constraintBody kind)
  | none => d.constraintBody kind

/-- The name of a constraint that has one. -/
def constraintName? : Node → Option String
  | .constraint name _ => name
  | _ => none

def actionText (change : ConstraintChange) (target : Spelled) : Spelling :=
  match change with
  | .add => clause "ADD " target.constraint
  | .drop =>
    match constraintName? target.node with
    | some name => fixed ("DROP CONSTRAINT " ++ d.quoteIdent name)
    | none => fun _ => .error (.invalidNode "only named constraints can be dropped")

def alterTableText (owner : String) (actions : List Spelled) : Spelling :=
  spellList "; " (actions.map fun a => clause ("ALTER TABLE " ++ d.quoteIdent owner ++ " ") a.action)

def indexedText (c : IndexedColumn) : String := d.quoteIdent c.name ++ if c.descending then " DESC" else ""

def createIndexText (i : CreateIndex Spelled) : Spelling := fun p =>
  let guard := if i.ifNotExists then d.indexGuard i.table i.name else none
  let words := "CREATE " ++ (if i.unique then "UNIQUE " else "") ++
    (if i.clustered && d.clusteredIndexes then "CLUSTERED " else "") ++ "INDEX" ++
    (if i.ifNotExists && guard.isNone then " IF NOT EXISTS" else "")
  clauses
    [guard.map fixed, some (fixed words), some (fixed (d.quoteIdent i.name)),
      some (fixed ("ON " ++ d.quoteIdent i.table ++ " (" ++ ", ".intercalate (i.columns.map d.indexedText) ++
        ")")),
      i.filter.map fun filter p => clause "WHERE " filter.expr p.inlined] p

def enumText (name : String) (labels : List String) : Spelling :=
  if d.nativeEnums then
    fixed ("CREATE TYPE " ++ d.quoteIdent name ++ " AS ENUM (" ++
      ", ".intercalate (labels.map d.quoteString) ++ ")")
  else unsupported .enumDefinition

/-- An argument of a `SET`: a text names an object, a boolean is a switch. -/
def setArgument (s : Spelled) : Spelling :=
  match s.node.constant? with
  | some (.text name) => fixed (d.quoteIdent name)
  | some (.bool on) => fixed (if on then "ON" else "OFF")
  | _ => fun p => s.expr p.inlined

def setText (name : String) (arguments : List Spelled) : Spelling :=
  clauses (some (fixed ("SET " ++ name)) :: arguments.map fun a => some (d.setArgument a))

/-- The statements that have a text, semicolons between. -/
def statementsText (list : List Spelled) : Spelling := fun p => do
  let texts ← list.mapM (·.statement p)
  return .joined "; " (texts.filter fun w => !w.isBlank)

def exprText : Shape Spelled → Spelling
  | .column c => fixed (d.columnText c)
  | .constant value type => d.constantExpr value type
  | .placeholder index type => fun _ => return slotOf (.placeholder index) type
  | .parameter name type => fun _ => return slotOf (.named name) type
  | .binary op left right _ => d.binaryExpr op left right
  | .unary op operand _ => d.unaryExpr op operand
  | .call routine arguments type => d.callExpr routine arguments type
  | .aggregate kind argument distinct _ => d.aggregateExpr kind argument distinct
  | .groupAggregate label inGroup asQuery _ => groupAggregateExpr label inGroup asQuery
  | .subquery kind operand query _ => d.subqueryExpr kind operand query
  | .select s => fun p => return (← d.selectText s p).parenthesized
  | .window source orderBy => overExpr source orderBy
  | .conditional branches otherwise _ => conditionalExpr branches otherwise
  | s => unsupported s.kind

def sourceText : Shape Spelled → Spelling
  | .table name label _ => fixed (d.quoteIdent name ++ " AS " ++ d.quoteIdent label)
  | .select s => fun p => return (← d.selectText s p).parenthesized ++ d.aliased s.label
  | .join kind left right condition => d.joinText kind left right condition
  | s => unsupported s.kind

def queryText : Shape Spelled → Spelling
  | .select s => d.selectText s
  | s => unsupported s.kind

def statementText : Shape Spelled → Spelling
  | .select s => d.selectText s
  | .insert i => d.insertText i
  | .update u => d.updateText u
  | .delete owner label filter => d.deleteText owner label filter
  | .createTable t => d.createTableText t
  | .alterTable owner actions => d.alterTableText owner actions
  | .createIndex i => d.createIndexText i
  | .enumDefinition name labels => d.enumText name labels
  | .setCommand name arguments => d.setText name arguments
  | .statements list => statementsText list
  | s => d.exprText s

/-- One layer, from its children's texts. -/
def spellLayer (s : Shape Spelled) : Spelled :=
  { node := .mk (s.map (·.node))
    expr := d.exprText s
    source := d.sourceText s
    query := d.queryText s
    statement := d.statementText s
    definition := match s with
      | .columnDefinition name type constraints => d.definitionText name type constraints
      | s => unsupported s.kind
    constraint := match s with
      | .constraint name kind => d.constraintText name kind
      | s => unsupported s.kind
    action := match s with
      | .constraintAction change target => d.actionText change target
      | s => unsupported s.kind }

def spell : Node → Spelled := Node.fold d.spellLayer

/-- The wording of a whole tree. -/
def wording (n : Node) : Except CompileError Wording := (d.spell n).statement {}

end Dialect

end QueryTree
