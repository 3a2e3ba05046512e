import QueryTree.Dialect.Basic
import QueryTree.Node.Build

/-! Amendments of definitions and of writes to identity columns.

Each looks at one statement or at the statements of one list, and leaves everything else as it is.
-/

set_option autoImplicit false

namespace QueryTree.Amend

def identityInsert (owner : String) (on : Bool) : Node :=
  .setCommand "IDENTITY_INSERT" [.literal (.text owner), .literal (.bool on)]

/-- A statement with identity values allowed for its table while it runs. -/
def bracketed (owner : String) (statement : Node) : Node :=
  .statements [identityInsert owner true, statement, identityInsert owner false]

/-- Writes of given identity values are allowed around each statement that has some. -/
def identityBrackets : Amender where
  name := "identity_insert_bracketing"
  amend := Node.mapUp fun n =>
    match n with
    | .insert i =>
      if i.identityInsert then bracketed i.table (.insert { i with identityInsert := false }) else n
    | .update u =>
      if u.identityInsert then bracketed u.table (.update { u with identityInsert := false }) else n
    | n => n

/-- A unique index without a filter leaves out rows with a null, where nulls count as equal. A clustered
index cannot have a filter. -/
def uniqueIndexes : Amender where
  name := "ansi_null_unique_index"
  amend := Node.mapUp fun n =>
    match n with
    | .createIndex i =>
      if i.unique && !i.clustered && i.filter.isNone then
        match Node.conjunction (i.columns.map fun c =>
            .ofUnary .isNotNull (.column { label := "", name := c.name, type := .unknown })) with
        | some filter => .createIndex { i with filter := some filter }
        | none => n
      else n
    | n => n

/-- Every primary key in a statement is declared not clustered. -/
def withoutClusteredKey : Node → Node :=
  Node.mapUp fun n =>
    match n with
    | .constraint name (.primaryKey columns _) => .constraint name (.primaryKey columns (some false))
    | n => n

/-- The table on which a statement creates a clustered index. -/
def clusteredTable? : Node → Option String
  | .createIndex i => if i.clustered then some i.table else none
  | _ => none

/-- The table that a statement creates or alters. -/
def definedTable? : Node → Option String
  | .createTable t => some t.table
  | .alterTable owner _ => some owner
  | _ => none

/-- A table has one clustered index: where a list of statements creates one, the primary key is none. -/
def clusteredIndexes : Amender where
  name := "clustered_index_normalizer"
  amend := Node.mapUp fun n =>
    match n with
    | .statements list =>
      let tables := list.filterMap clusteredTable?
      .statements (list.map fun s =>
        match definedTable? s with
        | some owner => if tables.contains owner then withoutClusteredKey s else s
        | none => s)
    | n => n

def isEnumDefinition : Node → Bool
  | .enumDefinition .. => true
  | _ => false

/-- Definitions of enumerations are left out, where their columns are written as text. -/
def enumDefinitions : Amender where
  name := "enum_definition_removal"
  amend n :=
    if isEnumDefinition n then .statements []
    else n.mapUp fun n =>
      match n with
      | .statements list => .statements (list.filter fun s => !isEnumDefinition s)
      | n => n

end QueryTree.Amend
