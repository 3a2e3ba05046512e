import QueryTree.Routine

/-! Query trees.

A node is one layer over its children, and `Shape` is that layer with the children left open. Walks
and passes say what they do to one layer; recursion is said once, for all of them.

A table or a query goes by its label in the query around it, which is its alias in the command.
-/

set_option autoImplicit false

namespace QueryTree

inductive JoinKind where
  | inner | left | right | full | cross
  /-- A join whose right side may refer to its left side. -/
  | crossApply
  | outerApply
  deriving DecidableEq, Repr, Inhabited

/-- The condition may be left out. -/
def JoinKind.isUnconditional : JoinKind → Bool
  | .cross | .crossApply | .outerApply => true
  | _ => false

def JoinKind.all : List JoinKind := [.inner, .left, .right, .full, .cross, .crossApply, .outerApply]

def JoinKind.name : JoinKind → String
  | .inner => "Inner"
  | .left => "Left"
  | .right => "Right"
  | .full => "Full"
  | .cross => "Cross"
  | .crossApply => "CrossApply"
  | .outerApply => "OuterApply"

inductive AggregateKind where
  | count | longCount | sum | min | max | average
  deriving DecidableEq, Repr, Inhabited

def AggregateKind.all : List AggregateKind := [.count, .longCount, .sum, .min, .max, .average]

inductive SubqueryKind where
  | scalar
  | exists
  /-- The operand is sought among the rows. -/
  | isIn
  deriving DecidableEq, Repr, Inhabited

inductive BinaryOp where
  | eq | notEq | lt | ltEq | gt | gtEq
  | and | or
  | add | subtract | multiply | divide | modulo
  deriving DecidableEq, Repr, Inhabited

namespace BinaryOp

def isComparison : BinaryOp → Bool
  | .eq | .notEq | .lt | .ltEq | .gt | .gtEq => true
  | _ => false

def isLogical : BinaryOp → Bool
  | .and | .or => true
  | _ => false

def isArithmetic : BinaryOp → Bool
  | .add | .subtract | .multiply | .divide | .modulo => true
  | _ => false

end BinaryOp

inductive UnaryOp where
  | not | negate | isNull | isNotNull
  deriving DecidableEq, Repr, Inhabited

inductive Direction where
  | ascending
  | descending
  deriving DecidableEq, Repr, Inhabited

inductive ReferentialAction where
  | noAction | cascade | setNull | restrict
  deriving DecidableEq, Repr, Inhabited

/-- What an `ALTER TABLE` does with a constraint. -/
inductive ConstraintChange where
  | add
  | drop
  deriving DecidableEq, Repr, Inhabited

/-- A name with what it stands for: a projected column, an assignment, or a key of an entity. -/
structure Binding (α : Type) where
  name : String
  expr : α
  deriving DecidableEq, Repr, Inhabited

structure OrderItem (α : Type) where
  expr : α
  direction : Direction := .ascending
  deriving DecidableEq, Repr, Inhabited

/-- One `WHEN condition THEN result`. -/
structure Branch (α : Type) where
  condition : α
  result : α
  deriving DecidableEq, Repr, Inhabited

/-- A reference to a column by the label of the table or select that exposes it. -/
structure Column where
  label : String
  name : String
  type : DataType := .void
  deriving DecidableEq, Repr, Inhabited

/-- A query. No columns at all mean every column of the source. -/
structure Select (α : Type) where
  label : String
  columns : List (Binding α) := []
  source : Option α := none
  filter : Option α := none
  groupBy : List α := []
  orderBy : List (OrderItem α) := []
  distinct : Bool := false
  skip : Option α := none
  take : Option α := none
  forUpdate : Bool := false
  type : DataType := .unknown
  deriving DecidableEq, Repr, Inhabited

structure Insert (α : Type) where
  table : String
  columns : List String
  values : List α
  /-- Columns whose values, assigned by the database, are read back. -/
  returning : List String := []
  /-- A value is given for an identity column. -/
  identityInsert : Bool := false
  deriving DecidableEq, Repr, Inhabited

structure Update (α : Type) where
  table : String
  assignments : List (Binding α)
  filter : Option α := none
  identityInsert : Bool := false
  deriving DecidableEq, Repr, Inhabited

structure IndexedColumn where
  name : String
  descending : Bool := false
  deriving DecidableEq, Repr, Inhabited

structure CreateTable (α : Type) where
  table : String
  ifNotExists : Bool := false
  columns : List α
  constraints : List α := []
  deriving DecidableEq, Repr, Inhabited

structure CreateIndex (α : Type) where
  name : String
  table : String
  columns : List IndexedColumn
  unique : Bool := false
  clustered : Bool := false
  ifNotExists : Bool := false
  filter : Option α := none
  deriving DecidableEq, Repr, Inhabited

structure ForeignKey where
  columns : List String
  referencedTable : String
  referencedColumns : List String
  onDelete : ReferentialAction
  onUpdate : ReferentialAction
  deriving DecidableEq, Repr, Inhabited

inductive ConstraintKind (α : Type) where
  /-- `clustered` is left to the database when absent. -/
  | primaryKey (columns : List String) (clustered : Option Bool)
  | unique (columns : List String)
  | foreignKey (key : ForeignKey)
  | notNull
  | autoIncrement
  | default (value : α)
  deriving DecidableEq, Repr, Inhabited

/-- One layer of a query tree, over children of any type. -/
inductive Shape (α : Type) where
  | table (name label : String) (type : DataType)
  | select (query : Select α)
  | join (kind : JoinKind) (left right : α) (condition : Option α)
  | column (column : Column)
  | aggregate (kind : AggregateKind) (argument : Option α) (distinct : Bool) (type : DataType)
  /-- An aggregate over the group select `label`, in the form it has inside that select and as a
  query of its own that may stand anywhere. -/
  | groupAggregate (label : String) (inGroup asQuery : α) (type : DataType)
  | subquery (kind : SubqueryKind) (operand : Option α) (query : α) (type : DataType)
  | call (routine : Routine) (arguments : List α) (type : DataType)
  | constant (value : Value) (type : DataType)
  /-- Stands for the literal at an index of a list kept beside the tree. -/
  | placeholder (index : Nat) (type : DataType)
  /-- A value given by name when the command is bound. -/
  | parameter (name : String) (type : DataType)
  /-- A routine over rows in an order, written with `OVER`. -/
  | window (source : α) (orderBy : List (OrderItem α))
  | binary (op : BinaryOp) (left right : α) (type : DataType)
  | unary (op : UnaryOp) (operand : α) (type : DataType)
  | conditional (branches : List (Branch α)) (otherwise : Option α) (type : DataType)
  | tuple (elements : List α)
  /-- An entity, by the expressions of its primary key. -/
  | object (entity : String) (keys : List (Binding α))
  | insert (statement : Insert α)
  | update (statement : Update α)
  | delete (table : String) (label : Option String) (filter : Option α)
  | createTable (statement : CreateTable α)
  | alterTable (table : String) (actions : List α)
  | columnDefinition (name : String) (type : DataType) (constraints : List α)
  | constraint (name : Option String) (kind : ConstraintKind α)
  | constraintAction (change : ConstraintChange) (constraint : α)
  | createIndex (statement : CreateIndex α)
  | enumDefinition (name : String) (labels : List String)
  | setCommand (name : String) (arguments : List α)
  | statements (list : List α)
  deriving DecidableEq, Repr, Inhabited

inductive Node where
  | mk (shape : Shape Node)
  deriving Inhabited

/-- Which constructor a layer has. -/
inductive Kind where
  | table | select | join | column | aggregate | groupAggregate | subquery | call | constant
  | placeholder | parameter | window | binary | unary | conditional | tuple | object | insert | update
  | delete | createTable | alterTable | columnDefinition | constraint | constraintAction | createIndex
  | enumDefinition | setCommand | statements
  deriving DecidableEq, Repr, Inhabited

def Kind.name : Kind → String
  | .table => "Table"
  | .select => "Select"
  | .join => "Join"
  | .column => "Column"
  | .aggregate => "Aggregate"
  | .groupAggregate => "AggregateSubquery"
  | .subquery => "Subquery"
  | .call => "FunctionCall"
  | .constant => "Constant"
  | .placeholder => "ConstantPlaceholder"
  | .parameter => "Parameter"
  | .window => "Over"
  | .binary => "Binary"
  | .unary => "Unary"
  | .conditional => "Conditional"
  | .tuple => "Tuple"
  | .object => "ObjectReference"
  | .insert => "InsertInto"
  | .update => "Update"
  | .delete => "Delete"
  | .createTable => "CreateTable"
  | .alterTable => "AlterTable"
  | .columnDefinition => "ColumnDefinition"
  | .constraint => "Constraint"
  | .constraintAction => "ConstraintAction"
  | .createIndex => "CreateIndex"
  | .enumDefinition => "EnumDefinition"
  | .setCommand => "SetCommand"
  | .statements => "StatementList"

def Shape.kind {α : Type} : Shape α → Kind
  | .table .. => .table
  | .select .. => .select
  | .join .. => .join
  | .column .. => .column
  | .aggregate .. => .aggregate
  | .groupAggregate .. => .groupAggregate
  | .subquery .. => .subquery
  | .call .. => .call
  | .constant .. => .constant
  | .placeholder .. => .placeholder
  | .parameter .. => .parameter
  | .window .. => .window
  | .binary .. => .binary
  | .unary .. => .unary
  | .conditional .. => .conditional
  | .tuple .. => .tuple
  | .object .. => .object
  | .insert .. => .insert
  | .update .. => .update
  | .delete .. => .delete
  | .createTable .. => .createTable
  | .alterTable .. => .alterTable
  | .columnDefinition .. => .columnDefinition
  | .constraint .. => .constraint
  | .constraintAction .. => .constraintAction
  | .createIndex .. => .createIndex
  | .enumDefinition .. => .enumDefinition
  | .setCommand .. => .setCommand
  | .statements .. => .statements

namespace Node

def shape : Node → Shape Node
  | .mk s => s

@[simp] theorem shape_mk (s : Shape Node) : (Node.mk s).shape = s := rfl

@[simp] theorem mk_shape : ∀ n : Node, .mk n.shape = n
  | .mk _ => rfl

def kind (n : Node) : Kind := n.shape.kind

@[match_pattern] abbrev table (name label : String) (type : DataType) : Node := .mk (.table name label type)

@[match_pattern] abbrev select (query : Select Node) : Node := .mk (.select query)

@[match_pattern] abbrev join (kind : JoinKind) (left right : Node) (condition : Option Node) : Node :=
  .mk (.join kind left right condition)

@[match_pattern] abbrev column (column : Column) : Node := .mk (.column column)

@[match_pattern] abbrev aggregate (kind : AggregateKind) (argument : Option Node) (distinct : Bool)
    (type : DataType) : Node := .mk (.aggregate kind argument distinct type)

@[match_pattern] abbrev groupAggregate (label : String) (inGroup asQuery : Node) (type : DataType) : Node :=
  .mk (.groupAggregate label inGroup asQuery type)

@[match_pattern] abbrev subquery (kind : SubqueryKind) (operand : Option Node) (query : Node)
    (type : DataType) : Node := .mk (.subquery kind operand query type)

@[match_pattern] abbrev call (routine : Routine) (arguments : List Node) (type : DataType) : Node :=
  .mk (.call routine arguments type)

@[match_pattern] abbrev constant (value : Value) (type : DataType) : Node := .mk (.constant value type)

@[match_pattern] abbrev placeholder (index : Nat) (type : DataType) : Node := .mk (.placeholder index type)

@[match_pattern] abbrev parameter (name : String) (type : DataType) : Node := .mk (.parameter name type)

@[match_pattern] abbrev window (source : Node) (orderBy : List (OrderItem Node)) : Node :=
  .mk (.window source orderBy)

@[match_pattern] abbrev binary (op : BinaryOp) (left right : Node) (type : DataType) : Node :=
  .mk (.binary op left right type)

@[match_pattern] abbrev unary (op : UnaryOp) (operand : Node) (type : DataType) : Node :=
  .mk (.unary op operand type)

@[match_pattern] abbrev conditional (branches : List (Branch Node)) (otherwise : Option Node)
    (type : DataType) : Node := .mk (.conditional branches otherwise type)

@[match_pattern] abbrev tuple (elements : List Node) : Node := .mk (.tuple elements)

@[match_pattern] abbrev object (entity : String) (keys : List (Binding Node)) : Node :=
  .mk (.object entity keys)

@[match_pattern] abbrev insert (statement : Insert Node) : Node := .mk (.insert statement)

@[match_pattern] abbrev update (statement : Update Node) : Node := .mk (.update statement)

@[match_pattern] abbrev delete (table : String) (label : Option String) (filter : Option Node) : Node :=
  .mk (.delete table label filter)

@[match_pattern] abbrev createTable (statement : CreateTable Node) : Node := .mk (.createTable statement)

@[match_pattern] abbrev alterTable (table : String) (actions : List Node) : Node :=
  .mk (.alterTable table actions)

@[match_pattern] abbrev columnDefinition (name : String) (type : DataType) (constraints : List Node) : Node :=
  .mk (.columnDefinition name type constraints)

@[match_pattern] abbrev constraint (name : Option String) (kind : ConstraintKind Node) : Node :=
  .mk (.constraint name kind)

@[match_pattern] abbrev constraintAction (change : ConstraintChange) (constraint : Node) : Node :=
  .mk (.constraintAction change constraint)

@[match_pattern] abbrev createIndex (statement : CreateIndex Node) : Node := .mk (.createIndex statement)

@[match_pattern] abbrev enumDefinition (name : String) (labels : List String) : Node :=
  .mk (.enumDefinition name labels)

@[match_pattern] abbrev setCommand (name : String) (arguments : List Node) : Node :=
  .mk (.setCommand name arguments)

@[match_pattern] abbrev statements (list : List Node) : Node := .mk (.statements list)

mutual

/-- What a consumer of the node reads. Statements have type `void`. -/
def dataType : Node → DataType
  | .table _ _ type => type
  | .select query => query.type
  | .join _ left right _ => .tuple [left.dataType, right.dataType]
  | .column c => c.type
  | .aggregate _ _ _ type => type
  | .groupAggregate _ _ _ type => type
  | .subquery _ _ _ type => type
  | .call _ _ type => type
  | .constant _ type => type
  | .placeholder _ type => type
  | .parameter _ type => type
  | .window source _ => source.dataType
  | .binary _ _ _ type => type
  | .unary _ _ type => type
  | .conditional _ _ type => type
  | .tuple elements => .tuple (dataTypes elements)
  | .object entity _ => .entity entity
  | _ => .void

def dataTypes : List Node → List DataType
  | [] => []
  | n :: rest => dataType n :: dataTypes rest

end

def select? : Node → Option (Select Node)
  | .select query => some query
  | _ => none

def column? : Node → Option Column
  | .column c => some c
  | _ => none

def constant? : Node → Option Value
  | .constant value _ => some value
  | _ => none

def bool? (n : Node) : Option Bool := n.constant?.bind Value.bool?

def isConstant (n : Node) : Bool := n.constant?.isSome

/-- May stand in a `FROM` clause. -/
def isSource : Node → Bool
  | .table .. | .select _ | .join .. => true
  | _ => false

/-- Is written as a test, rather than as a value that may be of boolean type. -/
def isPredicate : Node → Bool
  | .binary op _ _ _ => op.isComparison || op.isLogical
  | .unary op _ _ => op ≠ .negate
  | .call routine _ _ => routine.isPredicate
  | .subquery kind _ _ _ => kind ≠ .scalar
  | _ => false

end Node

end QueryTree
