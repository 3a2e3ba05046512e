import QueryTree.DataType
import QueryTree.Moment
import QueryTree.Number.Shortest
import QueryTree.Number.Reader

/-! Values: literals of a tree, bound parameters, and cells of a result row.

A decimal and a guid are kept as their text. Values are equal when they have the same form and content;
an `int32` never equals an `int64`.
-/

set_option autoImplicit false

namespace QueryTree

inductive Value where
  | null
  | bool (b : Bool)
  | int32 (n : Int32)
  | int64 (n : Int64)
  | double (d : Double)
  | decimal (s : String)
  | text (s : String)
  | dateTime (m : Moment)
  | guid (s : String)
  | binary (bytes : List UInt8)
  | list (items : List Value)
  deriving Repr, Inhabited

namespace Value

mutual

def same : Value → Value → Bool
  | .null, .null => true
  | .bool a, .bool b => a == b
  | .int32 a, .int32 b => a == b
  | .int64 a, .int64 b => a == b
  | .double a, .double b => a == b
  | .decimal a, .decimal b | .text a, .text b | .guid a, .guid b => a == b
  | .dateTime a, .dateTime b => a == b
  | .binary a, .binary b => a == b
  | .list as, .list bs => sameAll as bs
  | _, _ => false

def sameAll : List Value → List Value → Bool
  | [], [] => true
  | a :: as, b :: bs => same a b && sameAll as bs
  | _, _ => false

end

mutual

theorem same_iff : ∀ a b : Value, same a b = true ↔ a = b
  | .list as, b => by cases b <;> simp [same, sameAll_iff as]
  | .null, b | .bool _, b | .int32 _, b | .int64 _, b | .double _, b | .decimal _, b | .text _, b
  | .dateTime _, b | .guid _, b | .binary _, b => by cases b <;> simp [same]

theorem sameAll_iff : ∀ as bs : List Value, sameAll as bs = true ↔ as = bs
  | [], bs => by cases bs <;> simp [sameAll]
  | a :: as, bs => by cases bs <;> simp [sameAll, same_iff a, sameAll_iff as]

end

instance : DecidableEq Value := fun a b => decidable_of_iff (same a b = true) (same_iff a b)

mutual

/-- The type a value has of itself. A list is typed by its first item whose type is known. -/
def dataType : Value → DataType
  | .null => .unknown
  | .bool _ => .boolean
  | .int32 _ => .int32
  | .int64 _ => .int64
  | .double _ => .double
  | .decimal _ => .decimal
  | .text _ => .text
  | .dateTime _ => .dateTime
  | .guid _ => .guid
  | .binary _ => .binary
  | .list items => .sequence (itemType items)

def itemType : List Value → DataType
  | [] => .unknown
  | item :: rest => if item.dataType = .unknown then itemType rest else item.dataType

end

def isNull : Value → Bool
  | .null => true
  | _ => false

def bool? : Value → Option Bool
  | .bool b => some b
  | _ => none

/-- The whole number of an integer of either width. -/
def integer? : Value → Option Int64
  | .int32 n => some n.toInt64
  | .int64 n => some n
  | _ => none

/-- The nearest binary64 number to a numeric value. -/
def double? : Value → Option Double
  | .int32 n => some (Double.ofInt n.toInt)
  | .int64 n => some (Double.ofInt n.toInt)
  | .double d => some d
  | .decimal s => Double.parse? s
  | _ => none

/-- The text of a value kept as text. -/
def text? : Value → Option String
  | .text s | .decimal s | .guid s => some s
  | _ => none

mutual

/-- The value as messages spell it; texts are quoted as they stand. -/
def render : Value → String
  | .null => "NULL"
  | .bool b => if b then "true" else "false"
  | .int32 n => toString n.toInt
  | .int64 n => toString n.toInt
  | .double d => d.render
  | .decimal s => s
  | .text s => "'" ++ s ++ "'"
  | .dateTime m => "'" ++ m.render ++ "'"
  | .guid s => "'" ++ s ++ "'"
  | .binary bytes => "<" ++ toString bytes.length ++ " bytes>"
  | .list items => "[" ++ ", ".intercalate (renderAll items) ++ "]"

def renderAll : List Value → List String
  | [] => []
  | item :: rest => render item :: renderAll rest

end

end Value

end QueryTree
