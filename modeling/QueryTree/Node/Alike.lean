import QueryTree.Node.Basic

/-! When two trees count as alike, and the marks that tell trees apart.

Trees are alike when they agree layer by layer. A comparison may pass over the values of literals, of which
it still sees the type and whether they are null, and over the indices of placeholders. Literals that are
part of the command text, those of constraints, index filters and `SET` arguments, are never passed over.
`marks` lists what a comparison looks at, so it can serve as a key for look-ups by shape.
-/

set_option autoImplicit false

namespace QueryTree

/-- What a comparison passes over. -/
structure Leniency where
  constants : Bool := false
  placeholders : Bool := false
  deriving DecidableEq, Repr, Inhabited

/-- For the parts of a tree whose literals are written into the command text. -/
def Leniency.inline (f : Leniency) : Leniency := { f with constants := false }

namespace Node

mutual

def alike (f : Leniency) : Node → Node → Bool
  | .table name label type, .table name' label' type' => type == type' && name == name' && label == label'
  | .select ⟨label, columns, source, filter, groupBy, orderBy, distinct, skip, take, forUpdate, type⟩,
    .select q =>
    type == q.type && label == q.label && distinct == q.distinct && forUpdate == q.forUpdate &&
      alikeBindings f columns q.columns && alikeOption f source q.source && alikeOption f filter q.filter &&
      alikeOrder f orderBy q.orderBy && alikeList f groupBy q.groupBy && alikeOption f skip q.skip &&
      alikeOption f take q.take
  | .join kind left right condition, .join kind' left' right' condition' =>
    kind == kind' && alike f left left' && alike f right right' && alikeOption f condition condition'
  | .column c, .column c' => c == c'
  | .aggregate kind argument distinct type, .aggregate kind' argument' distinct' type' =>
    type == type' && kind == kind' && distinct == distinct' && alikeOption f argument argument'
  | .groupAggregate label inGroup asQuery type, .groupAggregate label' inGroup' asQuery' type' =>
    type == type' && label == label' && alike f inGroup inGroup' && alike f asQuery asQuery'
  | .subquery kind operand query type, .subquery kind' operand' query' type' =>
    type == type' && kind == kind' && alikeOption f operand operand' && alike f query query'
  | .call routine arguments type, .call routine' arguments' type' =>
    type == type' && routine == routine' && alikeList f arguments arguments'
  | .constant value type, .constant value' type' =>
    type == type' && if f.constants then value.isNull == value'.isNull else value == value'
  | .placeholder index type, .placeholder index' type' =>
    type == type' && (f.placeholders || index == index')
  | .parameter name type, .parameter name' type' => type == type' && name == name'
  | .window source orderBy, .window source' orderBy' =>
    alike f source source' && alikeOrder f orderBy orderBy'
  | .binary op left right type, .binary op' left' right' type' =>
    type == type' && op == op' && alike f left left' && alike f right right'
  | .unary op operand type, .unary op' operand' type' =>
    type == type' && op == op' && alike f operand operand'
  | .conditional branches otherwise type, .conditional branches' otherwise' type' =>
    type == type' && alikeBranches f branches branches' && alikeOption f otherwise otherwise'
  | .tuple elements, .tuple elements' => alikeList f elements elements'
  | .object entity keys, .object entity' keys' => entity == entity' && alikeBindings f keys keys'
  | .insert ⟨owner, columns, values, returning, identityInsert⟩, .insert i =>
    owner == i.table && columns == i.columns && returning == i.returning &&
      identityInsert == i.identityInsert && alikeList f values i.values
  | .update ⟨owner, assignments, filter, identityInsert⟩, .update u =>
    owner == u.table && identityInsert == u.identityInsert && alikeBindings f assignments u.assignments &&
      alikeOption f filter u.filter
  | .delete owner label filter, .delete owner' label' filter' =>
    owner == owner' && label == label' && alikeOption f filter filter'
  | .createTable ⟨owner, ifNotExists, columns, constraints⟩, .createTable t =>
    owner == t.table && ifNotExists == t.ifNotExists && alikeList f columns t.columns &&
      alikeList f constraints t.constraints
  | .alterTable owner actions, .alterTable owner' actions' => owner == owner' && alikeList f actions actions'
  | .columnDefinition name type constraints, .columnDefinition name' type' constraints' =>
    name == name' && type == type' && alikeList f constraints constraints'
  | .constraint name kind, .constraint name' kind' => name == name' && alikeConstraint f.inline kind kind'
  | .constraintAction change target, .constraintAction change' target' =>
    change == change' && alike f target target'
  | .createIndex ⟨name, owner, columns, unique, clustered, ifNotExists, filter⟩, .createIndex i =>
    name == i.name && owner == i.table && columns == i.columns && unique == i.unique &&
      clustered == i.clustered && ifNotExists == i.ifNotExists && alikeOption f.inline filter i.filter
  | .enumDefinition name labels, .enumDefinition name' labels' => name == name' && labels == labels'
  | .setCommand name arguments, .setCommand name' arguments' =>
    name == name' && alikeList f.inline arguments arguments'
  | .statements list, .statements list' => alikeList f list list'
  | _, _ => false

def alikeOption (f : Leniency) : Option Node → Option Node → Bool
  | none, none => true
  | some a, some b => alike f a b
  | _, _ => false

def alikeList (f : Leniency) : List Node → List Node → Bool
  | [], [] => true
  | a :: as, b :: bs => alike f a b && alikeList f as bs
  | _, _ => false

def alikeBindings (f : Leniency) : List (Binding Node) → List (Binding Node) → Bool
  | [], [] => true
  | ⟨name, expr⟩ :: as, b :: bs => name == b.name && alike f expr b.expr && alikeBindings f as bs
  | _, _ => false

def alikeOrder (f : Leniency) : List (OrderItem Node) → List (OrderItem Node) → Bool
  | [], [] => true
  | ⟨expr, direction⟩ :: as, b :: bs =>
    direction == b.direction && alike f expr b.expr && alikeOrder f as bs
  | _, _ => false

def alikeBranches (f : Leniency) : List (Branch Node) → List (Branch Node) → Bool
  | [], [] => true
  | ⟨condition, result⟩ :: as, b :: bs =>
    alike f condition b.condition && alike f result b.result && alikeBranches f as bs
  | _, _ => false

def alikeConstraint (f : Leniency) : ConstraintKind Node → ConstraintKind Node → Bool
  | .primaryKey columns clustered, .primaryKey columns' clustered' =>
    columns == columns' && clustered == clustered'
  | .unique columns, .unique columns' => columns == columns'
  | .foreignKey key, .foreignKey key' => key == key'
  | .notNull, .notNull | .autoIncrement, .autoIncrement => true
  | .default value, .default value' => alike f value value'
  | _, _ => false

end

theorem alike_constant (f : Leniency) (value value' : Value) (type type' : DataType) :
    alike f (.constant value type) (.constant value' type') =
      (type == type' && if f.constants then value.isNull == value'.isNull else value == value') := by
  rw [alike]

theorem alike_placeholder (f : Leniency) (index index' : Nat) (type type' : DataType) :
    alike f (.placeholder index type) (.placeholder index' type') =
      (type == type' && (f.placeholders || index == index')) := by
  rw [alike]

/-- Nothing is passed over. -/
instance : BEq Node := ⟨alike {}⟩

end Node

/-- One field of a layer, as a look-up key records it. -/
inductive Mark where
  | kind (kind : Kind)
  | type (type : DataType)
  | text (s : String)
  | texts (list : List String)
  | name? (name : Option String)
  | flag (b : Bool)
  | flag? (b : Option Bool)
  | number (n : Nat)
  /-- Which of its forms a constraint has. -/
  | tag (n : UInt8)
  | column (label name : String)
  | value (value : Value)
  | join (kind : JoinKind)
  | aggregate (kind : AggregateKind)
  | subquery (kind : SubqueryKind)
  | routine (routine : Routine)
  | binary (op : BinaryOp)
  | unary (op : UnaryOp)
  | direction (direction : Direction)
  | action (action : ReferentialAction)
  | change (change : ConstraintChange)
  | indexed (columns : List IndexedColumn)
  deriving DecidableEq, Repr

namespace Node

mutual

/-- What tells a tree apart from others: its kind and type, then its fields and children. A list is
preceded by its length and an optional child by whether it is there. -/
def marks (f : Leniency) : Node → List Mark
  | .table name label type => [.kind .table, .type type, .text name, .text label]
  | .select ⟨label, columns, source, filter, groupBy, orderBy, distinct, skip, take, forUpdate, type⟩ =>
    [.kind .select, .type type, .text label, .flag distinct, .flag forUpdate, .number columns.length] ++
      marksBindings f columns ++ marksOption f source ++ marksOption f filter ++
      .number orderBy.length :: marksOrder f orderBy ++ .number groupBy.length :: marksList f groupBy ++
      marksOption f skip ++ marksOption f take
  | .join kind left right condition =>
    [.kind .join, .type (.tuple [left.dataType, right.dataType]), .join kind] ++ marks f left ++
      marks f right ++ marksOption f condition
  | .column c => [.kind .column, .type c.type, .column c.label c.name]
  | .aggregate kind argument distinct type =>
    [.kind .aggregate, .type type, .aggregate kind, .flag distinct] ++ marksOption f argument
  | .groupAggregate label inGroup asQuery type =>
    [.kind .groupAggregate, .type type, .text label] ++ marks f inGroup ++ marks f asQuery
  | .subquery kind operand query type =>
    [.kind .subquery, .type type, .subquery kind] ++ marksOption f operand ++ marks f query
  | .call routine arguments type =>
    [.kind .call, .type type, .routine routine, .number arguments.length] ++ marksList f arguments
  | .constant value type =>
    [.kind .constant, .type type, if f.constants then .flag value.isNull else .value value]
  | .placeholder index type =>
    [.kind .placeholder, .type type] ++ if f.placeholders then [] else [.number index]
  | .parameter name type => [.kind .parameter, .type type, .text name]
  | .window source orderBy =>
    [.kind .window, .type source.dataType] ++ marks f source ++
      .number orderBy.length :: marksOrder f orderBy
  | .binary op left right type =>
    [.kind .binary, .type type, .binary op] ++ marks f left ++ marks f right
  | .unary op operand type => [.kind .unary, .type type, .unary op] ++ marks f operand
  | .conditional branches otherwise type =>
    [.kind .conditional, .type type, .number branches.length] ++ marksBranches f branches ++
      marksOption f otherwise
  | .tuple elements =>
    [.kind .tuple, .type (.tuple (dataTypes elements)), .number elements.length] ++ marksList f elements
  | .object entity keys =>
    [.kind .object, .type (.entity entity), .text entity, .number keys.length] ++ marksBindings f keys
  | .insert ⟨owner, columns, values, returning, identityInsert⟩ =>
    [.kind .insert, .type .void, .text owner, .texts columns, .texts returning, .flag identityInsert,
      .number values.length] ++ marksList f values
  | .update ⟨owner, assignments, filter, identityInsert⟩ =>
    [.kind .update, .type .void, .text owner, .flag identityInsert, .number assignments.length] ++
      marksBindings f assignments ++ marksOption f filter
  | .delete owner label filter =>
    [.kind .delete, .type .void, .text owner, .name? label] ++ marksOption f filter
  | .createTable ⟨owner, ifNotExists, columns, constraints⟩ =>
    [.kind .createTable, .type .void, .text owner, .flag ifNotExists, .number columns.length] ++
      marksList f columns ++ .number constraints.length :: marksList f constraints
  | .alterTable owner actions =>
    [.kind .alterTable, .type .void, .text owner, .number actions.length] ++ marksList f actions
  | .columnDefinition name type constraints =>
    [.kind .columnDefinition, .type .void, .text name, .type type, .number constraints.length] ++
      marksList f constraints
  | .constraint name kind =>
    [.kind .constraint, .type .void, .name? name] ++ marksConstraint f.inline kind
  | .constraintAction change target =>
    [.kind .constraintAction, .type .void, .change change] ++ marks f target
  | .createIndex ⟨name, owner, columns, unique, clustered, ifNotExists, filter⟩ =>
    [.kind .createIndex, .type .void, .text name, .text owner, .indexed columns, .flag unique,
      .flag clustered, .flag ifNotExists] ++ marksOption f.inline filter
  | .enumDefinition name labels => [.kind .enumDefinition, .type .void, .text name, .texts labels]
  | .setCommand name arguments =>
    [.kind .setCommand, .type .void, .text name, .number arguments.length] ++ marksList f.inline arguments
  | .statements list => [.kind .statements, .type .void, .number list.length] ++ marksList f list

def marksOption (f : Leniency) : Option Node → List Mark
  | none => [.flag false]
  | some n => .flag true :: marks f n

def marksList (f : Leniency) : List Node → List Mark
  | [] => []
  | n :: rest => marks f n ++ marksList f rest

def marksBindings (f : Leniency) : List (Binding Node) → List Mark
  | [] => []
  | ⟨name, expr⟩ :: rest => .text name :: marks f expr ++ marksBindings f rest

def marksOrder (f : Leniency) : List (OrderItem Node) → List Mark
  | [] => []
  | ⟨expr, direction⟩ :: rest => .direction direction :: marks f expr ++ marksOrder f rest

def marksBranches (f : Leniency) : List (Branch Node) → List Mark
  | [] => []
  | ⟨condition, result⟩ :: rest => marks f condition ++ marks f result ++ marksBranches f rest

def marksConstraint (f : Leniency) : ConstraintKind Node → List Mark
  | .primaryKey columns clustered => [.tag 0, .texts columns, .flag? clustered]
  | .unique columns => [.tag 1, .texts columns]
  | .foreignKey key =>
    [.tag 2, .texts key.columns, .text key.referencedTable, .texts key.referencedColumns,
      .action key.onDelete, .action key.onUpdate]
  | .notNull => [.tag 3]
  | .autoIncrement => [.tag 4]
  | .default value => .tag 5 :: marks f value

end

end Node

end QueryTree
