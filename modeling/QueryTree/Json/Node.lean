import QueryTree.Json.Value
import QueryTree.Node.Fold

/-! Query trees as JSON. -/

set_option autoImplicit false

namespace QueryTree

namespace Json

def joinKinds : List (String × JoinKind) := JoinKind.all.map fun kind => (kind.name, kind)

def aggregateKinds : List (String × AggregateKind) :=
  [("Count", .count), ("LongCount", .longCount), ("Sum", .sum), ("Min", .min), ("Max", .max),
    ("Average", .average)]

def subqueryKinds : List (String × SubqueryKind) := [("Scalar", .scalar), ("Exists", .exists), ("In", .isIn)]

def binaryOps : List (String × BinaryOp) :=
  [("Eq", .eq), ("NotEq", .notEq), ("Lt", .lt), ("LtEq", .ltEq), ("Gt", .gt), ("GtEq", .gtEq),
    ("And", .and), ("Or", .or), ("Add", .add), ("Subtract", .subtract), ("Multiply", .multiply),
    ("Divide", .divide), ("Modulo", .modulo)]

def unaryOps : List (String × UnaryOp) :=
  [("Not", .not), ("Negate", .negate), ("IsNull", .isNull), ("IsNotNull", .isNotNull)]

def directions : List (String × Direction) := [("Ascending", .ascending), ("Descending", .descending)]

def referentialActions : List (String × ReferentialAction) :=
  [("NoAction", .noAction), ("Cascade", .cascade), ("SetNull", .setNull), ("Restrict", .restrict)]

def constraintChanges : List (String × ConstraintChange) := [("Add", .add), ("Drop", .drop)]

/-- The word for an item of a table of words. -/
def wordFor {α : Type} [DecidableEq α] (words : List (String × α)) (a : α) : Json :=
  .string ((words.find? (·.2 = a)).map (·.1) |>.getD "")

/-- A named part, under the names the two fields have. -/
def binding? {α : Type} (expr? : Json → Option α) (name expr : String) (json : Json) :
    Option (Binding α) := do
  let m : Members ← record? [name, expr] json
  return { name := ← m.required name string?, expr := ← m.required expr expr? }

section Decode

variable (node? : Json → Option Node)

def orderItem? (json : Json) : Option (OrderItem Node) := do
  let m : Members ← record? ["expression", "direction"] json
  return { expr := ← m.required "expression" node?
           direction := ← m.defaulted "direction" .ascending (named? directions) }

def branch? (json : Json) : Option (Branch Node) := do
  let m : Members ← record? ["condition", "result"] json
  return { condition := ← m.required "condition" node?, result := ← m.required "result" node? }

def select? (json : Json) : Option (Select Node) := do
  let m : Members ← record? ["alias", "columns", "from", "where", "order_by", "group_by", "distinct",
    "skip", "take", "for_update", "data_type"] json
  return { label := ← m.required "alias" string?
           columns := ← m.defaulted "columns" [] (list? (binding? node? "name" "expression"))
           source := ← m.optional "from" node?
           filter := ← m.optional "where" node?
           orderBy := ← m.defaulted "order_by" [] (list? (orderItem? node?))
           groupBy := ← m.defaulted "group_by" [] (list? node?)
           distinct := ← m.defaulted "distinct" false bool?
           skip := ← m.optional "skip" node?
           take := ← m.optional "take" node?
           forUpdate := ← m.defaulted "for_update" false bool?
           type := ← m.defaulted "data_type" .void dataType? }

def column? (json : Json) : Option Column := do
  let m : Members ← record? ["select_alias", "name", "data_type"] json
  return { label := ← m.required "select_alias" string?, name := ← m.required "name" string?
           type := ← m.defaulted "data_type" .void dataType? }

def indexedColumn? (json : Json) : Option IndexedColumn := do
  let m : Members ← record? ["name", "descending"] json
  return { name := ← m.required "name" string?
           descending := ← m.defaulted "descending" false bool? }

def constraintKind? (json : Json) : Option (ConstraintKind Node) :=
  match named? [("NotNull", .notNull), ("AutoIncrement", .autoIncrement)] json with
  | some kind => some kind
  | none => do
    match ← alternative? json with
    | ("PrimaryKey", some held) =>
      let m : Members ← record? ["columns", "clustered"] held
      return .primaryKey (← m.required "columns" (list? string?)) (← m.optional "clustered" bool?)
    | ("Unique", some held) =>
      let m : Members ← record? ["columns"] held
      return .unique (← m.required "columns" (list? string?))
    | ("ForeignKey", some held) =>
      let m : Members ← record? ["columns", "referenced_table", "referenced_columns", "on_delete",
        "on_update"] held
      return .foreignKey
        { columns := ← m.required "columns" (list? string?)
          referencedTable := ← m.required "referenced_table" string?
          referencedColumns := ← m.required "referenced_columns" (list? string?)
          onDelete := ← m.required "on_delete" (named? referentialActions)
          onUpdate := ← m.required "on_update" (named? referentialActions) }
    | ("Default", some held) => return .default (← node? held)
    | _ => none

/-- One layer, from the name of its kind and its fields. -/
def shape? (kind : String) (json : Json) : Option (Shape Node) := do
  let fields (names : List String) : Option Members := record? names json
  let strings := list? string?
  let nodes := list? node?
  match kind with
  | "Table" =>
    let m ← fields ["name", "alias", "data_type"]
    return .table (← m.required "name" string?) (← m.required "alias" string?)
      (← m.defaulted "data_type" .void dataType?)
  | "Select" => return .select (← select? node? json)
  | "Join" =>
    let m ← fields ["kind", "left", "right", "condition"]
    return .join (← m.required "kind" (named? joinKinds)) (← m.required "left" node?)
      (← m.required "right" node?) (← m.optional "condition" node?)
  | "Column" => return .column (← column? json)
  | "Aggregate" =>
    let m ← fields ["kind", "argument", "distinct", "data_type"]
    return .aggregate (← m.required "kind" (named? aggregateKinds)) (← m.optional "argument" node?)
      (← m.defaulted "distinct" false bool?) (← m.required "data_type" dataType?)
  | "AggregateSubquery" =>
    let m ← fields ["group_by_alias", "aggregate_in_group_select", "aggregate_as_subquery", "data_type"]
    return .groupAggregate (← m.required "group_by_alias" string?)
      (← m.required "aggregate_in_group_select" node?) (← m.required "aggregate_as_subquery" node?)
      (← m.required "data_type" dataType?)
  | "Subquery" =>
    let m ← fields ["kind", "operand", "select", "data_type"]
    return .subquery (← m.required "kind" (named? subqueryKinds)) (← m.optional "operand" node?)
      (← m.required "select" node?) (← m.required "data_type" dataType?)
  | "FunctionCall" =>
    let m ← fields ["function", "arguments", "data_type"]
    return .call (← m.required "function" routine?) (← m.required "arguments" nodes)
      (← m.required "data_type" dataType?)
  | "Constant" =>
    let m ← fields ["value", "data_type"]
    return .constant (← m.required "value" value?) (← m.required "data_type" dataType?)
  | "ConstantPlaceholder" =>
    let m ← fields ["index", "data_type"]
    return .placeholder (← m.required "index" size?) (← m.required "data_type" dataType?)
  | "Parameter" =>
    let m ← fields ["name", "data_type"]
    return .parameter (← m.required "name" string?) (← m.required "data_type" dataType?)
  | "Over" =>
    let m ← fields ["source", "order_by"]
    return .window (← m.required "source" node?) (← m.required "order_by" (list? (orderItem? node?)))
  | "Binary" =>
    let m ← fields ["op", "left", "right", "data_type"]
    return .binary (← m.required "op" (named? binaryOps)) (← m.required "left" node?)
      (← m.required "right" node?) (← m.required "data_type" dataType?)
  | "Unary" =>
    let m ← fields ["op", "operand", "data_type"]
    return .unary (← m.required "op" (named? unaryOps)) (← m.required "operand" node?)
      (← m.required "data_type" dataType?)
  | "Conditional" =>
    let m ← fields ["branches", "default", "data_type"]
    return .conditional (← m.required "branches" (list? (branch? node?))) (← m.optional "default" node?)
      (← m.required "data_type" dataType?)
  | "Tuple" =>
    let m ← fields ["elements"]
    return .tuple (← m.required "elements" nodes)
  | "ObjectReference" =>
    let m ← fields ["entity", "keys"]
    return .object (← m.required "entity" string?)
      (← m.required "keys" (list? (binding? node? "property" "expression")))
  | "InsertInto" =>
    let m ← fields ["table", "columns", "values", "returning", "requires_identity_insert"]
    return .insert
      { table := ← m.required "table" string?
        columns := ← m.required "columns" strings
        values := ← m.required "values" nodes
        returning := ← m.defaulted "returning" [] strings
        identityInsert := ← m.defaulted "requires_identity_insert" false bool? }
  | "Update" =>
    let m ← fields ["table", "assignments", "where", "requires_identity_insert"]
    return .update
      { table := ← m.required "table" string?
        assignments := ← m.required "assignments" (list? (binding? node? "column" "value"))
        filter := ← m.optional "where" node?
        identityInsert := ← m.defaulted "requires_identity_insert" false bool? }
  | "Delete" =>
    let m ← fields ["table", "alias", "where"]
    return .delete (← m.required "table" string?) (← m.optional "alias" string?)
      (← m.optional "where" node?)
  | "CreateTable" =>
    let m ← fields ["table", "if_not_exists", "columns", "constraints"]
    return .createTable
      { table := ← m.required "table" string?
        ifNotExists := ← m.defaulted "if_not_exists" false bool?
        columns := ← m.required "columns" nodes
        constraints := ← m.defaulted "constraints" [] nodes }
  | "AlterTable" =>
    let m ← fields ["table", "actions"]
    return .alterTable (← m.required "table" string?) (← m.required "actions" nodes)
  | "ColumnDefinition" =>
    let m ← fields ["name", "data_type", "constraints"]
    return .columnDefinition (← m.required "name" string?) (← m.required "data_type" dataType?)
      (← m.defaulted "constraints" [] nodes)
  | "Constraint" =>
    let m ← fields ["name", "kind"]
    return .constraint (← m.optional "name" string?) (← m.required "kind" (constraintKind? node?))
  | "ConstraintAction" =>
    let m ← fields ["action", "constraint"]
    return .constraintAction (← m.required "action" (named? constraintChanges))
      (← m.required "constraint" node?)
  | "CreateIndex" =>
    let m ← fields ["name", "table", "columns", "unique", "clustered", "if_not_exists", "where"]
    return .createIndex
      { name := ← m.required "name" string?
        table := ← m.required "table" string?
        columns := ← m.required "columns" (list? indexedColumn?)
        unique := ← m.defaulted "unique" false bool?
        clustered := ← m.defaulted "clustered" false bool?
        ifNotExists := ← m.defaulted "if_not_exists" false bool?
        filter := ← m.optional "where" node? }
  | "EnumDefinition" =>
    let m ← fields ["name", "labels"]
    return .enumDefinition (← m.required "name" string?) (← m.required "labels" strings)
  | "SetCommand" =>
    let m ← fields ["name", "arguments"]
    return .setCommand (← m.required "name" string?) (← m.required "arguments" nodes)
  | "StatementList" =>
    let m ← fields ["statements"]
    return .statements (← m.required "statements" nodes)
  | _ => none

end Decode

def nodeWithin? : Nat → Json → Option Node
  | 0, _ => none
  | fuel + 1, json => do
    match ← alternative? json with
    | (kind, some held) => return .mk (← shape? (nodeWithin? fuel) kind held)
    | (_, none) => none

def node? (json : Json) : Option Node := nodeWithin? (json.depth + 1) json

def query? (json : Json) : Option (Select Node) := select? node? json

end Json

namespace Binding

def toJson (name expr : String) (b : Binding Json) : Json := .object [(name, .string b.name), (expr, b.expr)]

end Binding

def OrderItem.toJson (o : OrderItem Json) : Json :=
  .object [("expression", o.expr), ("direction", Json.wordFor Json.directions o.direction)]

def Branch.toJson (b : Branch Json) : Json :=
  .object [("condition", b.condition), ("result", b.result)]

def Select.toJson (s : Select Json) : Json :=
  .object
    [("alias", .string s.label), ("columns", .array (s.columns.map (·.toJson "name" "expression"))),
      ("from", s.source.getD .null), ("where", s.filter.getD .null),
      ("order_by", .array (s.orderBy.map (·.toJson))), ("group_by", .array s.groupBy),
      ("distinct", .bool s.distinct), ("skip", s.skip.getD .null), ("take", s.take.getD .null),
      ("for_update", .bool s.forUpdate), ("data_type", s.type.toJson)]

def Column.toJson (c : Column) : Json :=
  .object [("select_alias", .string c.label), ("name", .string c.name), ("data_type", c.type.toJson)]

def IndexedColumn.toJson (c : IndexedColumn) : Json :=
  .object [("name", .string c.name), ("descending", .bool c.descending)]

def ConstraintKind.toJson : ConstraintKind Json → Json
  | .primaryKey columns clustered =>
    .tagged "PrimaryKey" (.object [("columns", .ofStrings columns), ("clustered", .ofOption .bool clustered)])
  | .unique columns => .tagged "Unique" (.object [("columns", .ofStrings columns)])
  | .foreignKey key =>
    .tagged "ForeignKey" (.object
      [("columns", .ofStrings key.columns), ("referenced_table", .string key.referencedTable),
        ("referenced_columns", .ofStrings key.referencedColumns),
        ("on_delete", Json.wordFor Json.referentialActions key.onDelete),
        ("on_update", Json.wordFor Json.referentialActions key.onUpdate)])
  | .notNull => .string "NotNull"
  | .autoIncrement => .string "AutoIncrement"
  | .default value => .tagged "Default" value

/-- The fields of a layer whose children are written already. -/
def Shape.fieldsToJson : Shape Json → Json
  | .table name label type =>
    .object [("name", .string name), ("alias", .string label), ("data_type", type.toJson)]
  | .select query => query.toJson
  | .join kind left right condition =>
    .object [("kind", Json.wordFor Json.joinKinds kind), ("left", left), ("right", right),
      ("condition", condition.getD .null)]
  | .column c => c.toJson
  | .aggregate kind argument distinct type =>
    .object [("kind", Json.wordFor Json.aggregateKinds kind), ("argument", argument.getD .null),
      ("distinct", .bool distinct), ("data_type", type.toJson)]
  | .groupAggregate label inGroup asQuery type =>
    .object [("group_by_alias", .string label), ("aggregate_in_group_select", inGroup),
      ("aggregate_as_subquery", asQuery), ("data_type", type.toJson)]
  | .subquery kind operand query type =>
    .object [("kind", Json.wordFor Json.subqueryKinds kind), ("operand", operand.getD .null),
      ("select", query), ("data_type", type.toJson)]
  | .call routine arguments type =>
    .object [("function", routine.toJson), ("arguments", .array arguments), ("data_type", type.toJson)]
  | .constant value type => .object [("value", value.toJson), ("data_type", type.toJson)]
  | .placeholder index type => .object [("index", .integer index), ("data_type", type.toJson)]
  | .parameter name type => .object [("name", .string name), ("data_type", type.toJson)]
  | .window source orderBy =>
    .object [("source", source), ("order_by", .array (orderBy.map (·.toJson)))]
  | .binary op left right type =>
    .object [("op", Json.wordFor Json.binaryOps op), ("left", left), ("right", right),
      ("data_type", type.toJson)]
  | .unary op operand type =>
    .object [("op", Json.wordFor Json.unaryOps op), ("operand", operand), ("data_type", type.toJson)]
  | .conditional branches otherwise type =>
    .object [("branches", .array (branches.map (·.toJson))), ("default", otherwise.getD .null),
      ("data_type", type.toJson)]
  | .tuple elements => .object [("elements", .array elements)]
  | .object entity keys =>
    .object [("entity", .string entity), ("keys", .array (keys.map (·.toJson "property" "expression")))]
  | .insert i =>
    .object [("table", .string i.table), ("columns", .ofStrings i.columns), ("values", .array i.values),
      ("returning", .ofStrings i.returning), ("requires_identity_insert", .bool i.identityInsert)]
  | .update u =>
    .object [("table", .string u.table),
      ("assignments", .array (u.assignments.map (·.toJson "column" "value"))),
      ("where", u.filter.getD .null), ("requires_identity_insert", .bool u.identityInsert)]
  | .delete owner label filter =>
    .object [("table", .string owner), ("alias", .ofOption .string label), ("where", filter.getD .null)]
  | .createTable t =>
    .object [("table", .string t.table), ("if_not_exists", .bool t.ifNotExists),
      ("columns", .array t.columns), ("constraints", .array t.constraints)]
  | .alterTable owner actions => .object [("table", .string owner), ("actions", .array actions)]
  | .columnDefinition name type constraints =>
    .object [("name", .string name), ("data_type", type.toJson), ("constraints", .array constraints)]
  | .constraint name kind => .object [("name", .ofOption .string name), ("kind", kind.toJson)]
  | .constraintAction change target =>
    .object [("action", Json.wordFor Json.constraintChanges change), ("constraint", target)]
  | .createIndex i =>
    .object [("name", .string i.name), ("table", .string i.table),
      ("columns", .array (i.columns.map (·.toJson))), ("unique", .bool i.unique),
      ("clustered", .bool i.clustered), ("if_not_exists", .bool i.ifNotExists),
      ("where", i.filter.getD .null)]
  | .enumDefinition name labels => .object [("name", .string name), ("labels", .ofStrings labels)]
  | .setCommand name arguments => .object [("name", .string name), ("arguments", .array arguments)]
  | .statements list => .object [("statements", .array list)]

def Node.toJson : Node → Json := Node.fold fun s => .tagged s.kind.name s.fieldsToJson

end QueryTree
