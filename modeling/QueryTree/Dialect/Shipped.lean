import QueryTree.Amend.Bits
import QueryTree.Amend.Definitions
import QueryTree.Amend.RowNumbers

/-! The dialects at hand: PostgreSQL, SQLite, and SQL Server with either way of paging. -/

set_option autoImplicit false

namespace QueryTree

namespace Dialect

/-- Spellings close to the standard. Membership and conversion have a form of their own. -/
def standardRoutine : Routine → Option RoutineSpelling
  | .concat => some { name := "CONCAT" }
  | .coalesce => some { name := "COALESCE" }
  | .upper => some { name := "UPPER" }
  | .lower => some { name := "LOWER" }
  | .trim => some { name := "TRIM" }
  | .length => some { name := "LENGTH" }
  | .substring => some { name := "SUBSTRING" }
  | .startsWith => some { name := "LIKE", isOperator := true, opening := "(", closing := " || '%')" }
  | .endsWith => some { name := "LIKE", isOperator := true, opening := "('%' || ", closing := ")" }
  | .containsString =>
    some { name := "LIKE", isOperator := true, opening := "('%' || ", closing := " || '%')" }
  | .like => some { name := "LIKE", isOperator := true }
  | .abs => some { name := "ABS" }
  | .round => some { name := "ROUND" }
  | .now => some { name := "NOW" }
  | .year => some { name := "EXTRACT", opening := "YEAR FROM " }
  | .month => some { name := "EXTRACT", opening := "MONTH FROM " }
  | .day => some { name := "EXTRACT", opening := "DAY FROM " }
  | .rowNumber => some { name := "ROW_NUMBER" }
  | .custom name => some { name := name }
  | .isIn | .cast => none

def standardAggregate : AggregateKind → String
  | .count | .longCount => "COUNT"
  | .sum => "SUM"
  | .min => "MIN"
  | .max => "MAX"
  | .average => "AVG"

/-- The keywords that need no lateral sources. -/
def standardJoin : JoinKind → Option String
  | .inner => some "INNER JOIN"
  | .left => some "LEFT JOIN"
  | .right => some "RIGHT JOIN"
  | .full => some "FULL JOIN"
  | .cross => some "CROSS JOIN"
  | .crossApply | .outerApply => none

def standardQuote : Quote := ⟨"\"", '"'⟩

def standardDelete (owner : String) (label : Option String) : String :=
  "DELETE FROM " ++ standardQuote.apply owner ++ ((label.map (" AS " ++ standardQuote.apply ·)).getD "")

def postgres : Dialect where
  name := "postgres"
  identQuote := standardQuote
  stringQuote := ⟨"'", '\''⟩
  marker index := "$" ++ toString (index + 1)
  limitStyle := .limitOffset
  unboundedLimit := none
  booleanStyle := .native
  returningStyle := .returning
  routine := standardRoutine
  aggregate := standardAggregate
  joinKeyword
    | .crossApply => some "CROSS JOIN LATERAL"
    | .outerApply => some "LEFT JOIN LATERAL"
    | kind => standardJoin kind
  forUpdate := some "FOR UPDATE"
  columnType
    | .boolean => some "BOOLEAN"
    | .int32 => some "INTEGER"
    | .int64 => some "BIGINT"
    | .double => some "DOUBLE PRECISION"
    | .decimal => some "NUMERIC"
    | .text => some "TEXT"
    | .dateTime => some "TIMESTAMP"
    | .guid => some "UUID"
    | .binary => some "BYTEA"
    | .enumeration name => some (standardQuote.apply name)
    | _ => none
  autoIncrement := "GENERATED BY DEFAULT AS IDENTITY"
  nativeEnums := true
  clusteredIndexes := false
  tableGuard _ := none
  indexGuard _ _ := none
  deleteFrom := standardDelete
  boolean b := if b then "TRUE" else "FALSE"
  binary bytes := "'\\x" ++ hexadecimal bytes ++ "'::bytea"
  amenders := []

/-- A part of a date read through its text. -/
def datePart (format : String) : RoutineSpelling :=
  { name := "CAST", opening := "strftime('" ++ format ++ "', ", closing := ") AS INTEGER" }

def sqlite : Dialect where
  name := "sqlite"
  identQuote := standardQuote
  stringQuote := ⟨"'", '\''⟩
  marker _ := "?"
  limitStyle := .limitOffset
  unboundedLimit := some "-1"
  booleanStyle := .native
  returningStyle := .returning
  routine
    | .concat => some { name := "||", isOperator := true }
    | .substring => some { name := "SUBSTR" }
    | .now => some { name := "datetime", opening := "'now'" }
    | .year => some (datePart "%Y")
    | .month => some (datePart "%m")
    | .day => some (datePart "%d")
    | routine => standardRoutine routine
  aggregate := standardAggregate
  joinKeyword := standardJoin
  forUpdate := none
  columnType
    | .boolean | .int32 | .int64 => some "INTEGER"
    | .double => some "REAL"
    | .decimal => some "NUMERIC"
    | .text | .dateTime | .guid | .enumeration _ => some "TEXT"
    | .binary => some "BLOB"
    | _ => none
  autoIncrement := "AUTOINCREMENT"
  nativeEnums := false
  clusteredIndexes := false
  tableGuard _ := none
  indexGuard _ _ := none
  deleteFrom := standardDelete
  boolean b := if b then "1" else "0"
  binary bytes := "X'" ++ hexadecimal bytes ++ "'"
  amenders := [Amend.enumDefinitions]

/-- How SQL Server skips rows: by row numbers, or by `OFFSET` where the server has it. -/
inductive Paging where
  | rowNumber
  | offsetFetch
  deriving DecidableEq, Repr, Inhabited

def bracketQuote : Quote := ⟨"[", ']'⟩

def nationalQuote : Quote := ⟨"N'", '\''⟩

def sqlServer (paging : Paging) : Dialect where
  name := "sqlserver"
  identQuote := bracketQuote
  stringQuote := nationalQuote
  marker index := "@p" ++ toString index
  limitStyle := match paging with
    | .rowNumber => .rowNumber
    | .offsetFetch => .offsetFetch
  unboundedLimit := none
  booleanStyle := .bit
  returningStyle := .output
  routine
    | .concat => some { name := "+", isOperator := true }
    | .length => some { name := "LEN" }
    | .now => some { name := "GETDATE" }
    | .year => some { name := "DATEPART", opening := "year, " }
    | .month => some { name := "DATEPART", opening := "month, " }
    | .day => some { name := "DATEPART", opening := "day, " }
    | .startsWith => some { name := "LIKE", isOperator := true, opening := "(", closing := " + '%')" }
    | .endsWith => some { name := "LIKE", isOperator := true, opening := "('%' + ", closing := ")" }
    | .containsString =>
      some { name := "LIKE", isOperator := true, opening := "('%' + ", closing := " + '%')" }
    | routine => standardRoutine routine
  aggregate
    | .longCount => "COUNT_BIG"
    | kind => standardAggregate kind
  joinKeyword
    | .crossApply => some "CROSS APPLY"
    | .outerApply => some "OUTER APPLY"
    | kind => standardJoin kind
  forUpdate := none
  columnType
    | .boolean => some "BIT"
    | .int32 => some "INT"
    | .int64 => some "BIGINT"
    | .double => some "FLOAT"
    | .decimal => some "DECIMAL(18, 2)"
    | .text => some "NVARCHAR(MAX)"
    | .dateTime => some "DATETIME2"
    | .guid => some "UNIQUEIDENTIFIER"
    | .binary => some "VARBINARY(MAX)"
    | .enumeration _ => some "NVARCHAR(100)"
    | _ => none
  autoIncrement := "IDENTITY(1, 1)"
  nativeEnums := false
  clusteredIndexes := true
  tableGuard owner := some ("IF OBJECT_ID(" ++ nationalQuote.apply owner ++ ", 'U') IS NULL")
  indexGuard owner index :=
    some ("IF NOT EXISTS (SELECT * FROM sys.indexes WHERE name = " ++ nationalQuote.apply index ++
      " AND object_id = OBJECT_ID(" ++ nationalQuote.apply owner ++ "))")
  deleteFrom owner label :=
    match label with
    | some label =>
      "DELETE " ++ bracketQuote.apply label ++ " FROM " ++ bracketQuote.apply owner ++ " AS " ++
        bracketQuote.apply label
    | none => "DELETE FROM " ++ bracketQuote.apply owner
  boolean b := if b then "1" else "0"
  binary bytes := "0x" ++ hexadecimal bytes
  amenders :=
    (if paging = .rowNumber then [Amend.rowNumbers] else []) ++
      [Amend.bits, Amend.identityBrackets, Amend.uniqueIndexes, Amend.clusteredIndexes, Amend.enumDefinitions]

end Dialect

/-- The dialects at hand. -/
inductive Shipped where
  | postgres
  | sqlite
  | sqlServer (paging : Dialect.Paging)
  deriving DecidableEq, Repr, Inhabited

def Shipped.dialect : Shipped → Dialect
  | .postgres => .postgres
  | .sqlite => .sqlite
  | .sqlServer paging => .sqlServer paging

/-- The databases a configuration names. -/
inductive DialectName where
  | postgres
  | sqlite
  | sqlServer
  deriving DecidableEq, Repr, Inhabited

namespace DialectName

def name : DialectName → String
  | .postgres => "postgres"
  | .sqlite => "sqlite"
  | .sqlServer => "sqlserver"

/-- The dialect of a name; `offsetFetch` says how SQL Server skips rows. -/
def shipped (offsetFetch : Bool) : DialectName → Shipped
  | .postgres => .postgres
  | .sqlite => .sqlite
  | .sqlServer => .sqlServer (if offsetFetch then .offsetFetch else .rowNumber)

/-- A name in any case, or one of the short names; of any other name, its lower-case form. -/
def parse (text : String) : Except String DialectName :=
  let lowered := String.ofList (text.toList.map Char.toLower)
  match lowered with
  | "postgres" | "postgresql" | "pg" => .ok .postgres
  | "sqlite" => .ok .sqlite
  | "sqlserver" | "mssql" => .ok .sqlServer
  | _ => .error lowered

end DialectName

end QueryTree
