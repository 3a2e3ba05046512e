import QueryTree.Error
import QueryTree.Node.Fold

/-! Dialects: how a database spells what a tree says.

A dialect is a record of spellings. What spelling cannot express is left to its amenders, which change a tree
before it is written.
-/

set_option autoImplicit false

namespace QueryTree

/-- Quotes around a text; the closing quote is written twice inside. -/
structure Quote where
  opening : String
  closing : Char
  deriving DecidableEq, Repr

namespace Quote

def double (closing : Char) : List Char → List Char
  | [] => []
  | c :: rest => if c = closing then c :: c :: double closing rest else c :: double closing rest

def apply (q : Quote) (s : String) : String :=
  q.opening ++ String.ofList (double q.closing s.toList) ++ q.closing.toString

end Quote

/-- How `skip` and `take` are written. -/
inductive LimitStyle where
  /-- `LIMIT n OFFSET m` -/
  | limitOffset
  /-- `OFFSET m ROWS FETCH NEXT n ROWS ONLY`, or `TOP (n)` without a skip. -/
  | offsetFetch
  /-- A skip becomes a filter on row numbers before a tree is written. -/
  | rowNumber
  deriving DecidableEq, Repr

inductive BooleanStyle where
  /-- A boolean column may stand as a test. -/
  | native
  /-- Booleans are stored as bits, which are no tests. -/
  | bit
  deriving DecidableEq, Repr

/-- Where an insert names the columns it reads back. -/
inductive ReturningStyle where
  | returning
  | output
  deriving DecidableEq, Repr

/-- A call is `name(opening arguments closing)`. An operator stands before every argument after the first,
which is wrapped in the opening and the closing. -/
structure RoutineSpelling where
  name : String
  isOperator : Bool := false
  opening : String := ""
  closing : String := ""
  deriving DecidableEq, Repr

/-- A change that every tree goes through before it is written. -/
structure Amender where
  name : String
  amend : Node → Node

structure Dialect where
  name : String
  identQuote : Quote
  stringQuote : Quote
  /-- The mark of the parameter at an index. -/
  marker : Nat → String
  limitStyle : LimitStyle
  /-- A row limit that means no limit, where an offset needs one. -/
  unboundedLimit : Option String
  booleanStyle : BooleanStyle
  returningStyle : ReturningStyle
  routine : Routine → Option RoutineSpelling
  aggregate : AggregateKind → String
  joinKeyword : JoinKind → Option String
  forUpdate : Option String
  /-- The type of a column in a definition, of a type that is not nullable. -/
  columnType : DataType → Option String
  autoIncrement : String
  nativeEnums : Bool
  clusteredIndexes : Bool
  /-- What stands before a `CREATE TABLE` that is to be run only if the table is missing. -/
  tableGuard : String → Option String
  /-- The same for an index, by its table and its name. -/
  indexGuard : String → String → Option String
  deleteFrom : String → Option String → String
  boolean : Bool → String
  binary : List UInt8 → String
  amenders : List Amender

namespace Dialect

def quoteIdent (d : Dialect) (name : String) : String := d.identQuote.apply name

def quoteString (d : Dialect) (s : String) : String := d.stringQuote.apply s

def typeName (d : Dialect) (type : DataType) : Except CompileError String :=
  match d.columnType type.underlying with
  | some name => .ok name
  | none => .error (.invalidNode ("no column type for " ++ type.underlying.render))

/-- A value as part of the command text. -/
def literal (d : Dialect) : Value → Except CompileError String
  | .null => .ok "NULL"
  | .bool b => .ok (d.boolean b)
  | .int32 n => .ok (toString n.toInt)
  | .int64 n => .ok (toString n.toInt)
  | .double x => .ok x.render
  | .decimal s => .ok s
  | .text s | .guid s => .ok (d.quoteString s)
  | .dateTime m => .ok (d.quoteString m.render)
  | .binary bytes => .ok (d.binary bytes)
  | .list _ => .error (.invalidNode "a list literal can't be written inline")

/-- Run every amender, in order. -/
def amend (d : Dialect) (n : Node) : Node := d.amenders.foldl (fun n a => a.amend n) n

end Dialect

/-- Two capital hexadecimal digits a byte. -/
def hexadecimal (bytes : List UInt8) : String :=
  String.ofList (bytes.flatMap fun b => [digit (b.toNat / 16), digit (b.toNat % 16)])
where
  digit (n : Nat) : Char := if n < 10 then Char.ofNat (48 + n) else Char.ofNat (55 + n)

end QueryTree
