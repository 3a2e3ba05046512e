import QueryTree.Node.Alike

/-! What a tree gives to a hasher.

A hasher takes numbers of several widths and runs of bytes, one at a time. A text is its bytes and one that no text
has behind them, a list is preceded by its length, and what has several forms by the number of its form. How a moment
is written is left to those who keep it.
-/

set_option autoImplicit false

namespace QueryTree

/-- What a hasher takes at a time. -/
inductive Write where
  | bytes (bytes : List UInt8)
  | u8 (n : UInt8)
  | i32 (n : Int32)
  | i64 (n : Int64)
  | u64 (n : UInt64)
  /-- A length or an index. -/
  | size (n : Nat)
  /-- Which of its forms something has. -/
  | form (n : Nat)
  deriving DecidableEq, Repr

namespace Write

def bool (b : Bool) : Write := .u8 (if b then 1 else 0)

def text (s : String) : List Write := [.bytes s.toByteArray.data.toList, .u8 255]

def list {α : Type} (writes : α → List Write) (items : List α) : List Write :=
  .size items.length :: items.flatMap writes

def option {α : Type} (writes : α → List Write) : Option α → List Write
  | none => [.form 0]
  | some a => .form 1 :: writes a

end Write

namespace DataType

mutual

def writes : DataType → List Write
  | .enumeration name => .form 10 :: Write.text name
  | .entity name => .form 11 :: Write.text name
  | .tuple items => .form 12 :: .size items.length :: writesAll items
  | .sequence item => .form 13 :: writes item
  | .nullable item => .form 14 :: writes item
  | type => [.form type.ctorIdx]

def writesAll : List DataType → List Write
  | [] => []
  | type :: rest => writes type ++ writesAll rest

end

end DataType

namespace Value

section

variable (moment : Moment → List Write)

mutual

def writes : Value → List Write
  | .null => [.u8 0]
  | .bool b => [.u8 1, .bool b]
  | .int32 n => [.u8 2, .i32 n]
  | .int64 n => [.u8 3, .i64 n]
  | .double d => [.u8 4, .u64 d.bits]
  | .decimal s => .u8 5 :: Write.text s
  | .text s => .u8 6 :: Write.text s
  | .dateTime m => .u8 7 :: moment m
  | .guid s => .u8 8 :: Write.text s
  | .binary bytes => [.u8 9, .size bytes.length, .bytes bytes]
  | .list items => .u8 10 :: .size items.length :: writesAll items

def writesAll : List Value → List Write
  | [] => []
  | value :: rest => writes value ++ writesAll rest

end

end

end Value

def Routine.writes : Routine → List Write
  | .custom name => .form 20 :: Write.text name
  | routine => [.form routine.ctorIdx]

def IndexedColumn.writes (c : IndexedColumn) : List Write := Write.text c.name ++ [.bool c.descending]

def Mark.writes (moment : Moment → List Write) : Mark → List Write
  | .kind k => [.form k.ctorIdx]
  | .type t => t.writes
  | .text s => Write.text s
  | .texts list => Write.list Write.text list
  | .name? o => Write.option Write.text o
  | .flag b => [.bool b]
  | .flag? o => Write.option (fun b => [.bool b]) o
  | .number n => [.size n]
  | .tag n => [.u8 n]
  | .column label name => Write.text label ++ Write.text name
  | .value v => v.writes moment
  | .join k => [.form k.ctorIdx]
  | .aggregate k => [.form k.ctorIdx]
  | .subquery k => [.form k.ctorIdx]
  | .routine r => r.writes
  | .binary op => [.form op.ctorIdx]
  | .unary op => [.form op.ctorIdx]
  | .direction d => [.form d.ctorIdx]
  | .action a => [.form a.ctorIdx]
  | .change c => [.form c.ctorIdx]
  | .indexed columns => Write.list IndexedColumn.writes columns

/-- What hashing the tree writes. -/
def Node.writes (moment : Moment → List Write) (f : Leniency) (n : Node) : List Write :=
  (n.marks f).flatMap (Mark.writes moment)

end QueryTree
