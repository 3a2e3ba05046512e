import QueryTree.Value

/-! What rows are made into. -/

set_option autoImplicit false

namespace QueryTree

inductive Materialized where
  | value (v : Value)
  | object (entity : String) (fields : List (String × Materialized))
  | tuple (items : List Materialized)
  | list (items : List Materialized)
  deriving Repr, Inhabited

namespace Materialized

def value? : Materialized → Option Value
  | .value v => some v
  | _ => none

def list? : Materialized → Option (List Materialized)
  | .list items => some items
  | _ => none

/-- A field of an object. -/
def field? (name : String) : Materialized → Option Materialized
  | .object _ fields => (fields.find? (·.1 == name)).map (·.2)
  | _ => none

end Materialized

/-- A letter that joins the one before it, or has no look of its own. -/
def Text.isHidden (c : Char) : Bool :=
  let n := c.toNat
  n < 0x20 || (0x7f ≤ n && n ≤ 0xa0) || n = 0xad || (0x300 ≤ n && n ≤ 0x36f) || n = 0x34f || n = 0x61c ||
    n = 0x1680 || (0x1ab0 ≤ n && n ≤ 0x1aff) || (0x1dc0 ≤ n && n ≤ 0x1dff) || (0x2000 ≤ n && n ≤ 0x200f) ||
    (0x2028 ≤ n && n ≤ 0x202f) || (0x205f ≤ n && n ≤ 0x206f) || (0x20d0 ≤ n && n ≤ 0x20f0) || n = 0x3000 ||
    (0xe000 ≤ n && n ≤ 0xf8ff) || (0xfe00 ≤ n && n ≤ 0xfe0f) || n = 0xfeff || (0xfff0 ≤ n && n ≤ 0xfffb) ||
    (0xe0000 ≤ n && n ≤ 0x10ffff)

namespace Text

def escapeChar (c : Char) : String :=
  if c = '"' then "\\\""
  else if c = '\\' then "\\\\"
  else if c = '\n' then "\\n"
  else if c = '\r' then "\\r"
  else if c = '\t' then "\\t"
  else if c = '\x00' then "\\0"
  else if isHidden c then "\\u\x7b" ++ String.ofList (Nat.toDigits 16 c.toNat) ++ "\x7d"
  else c.toString

/-- A text between quotes, with what would not show written by its number. -/
def quoted (s : String) : String := "\"" ++ String.join (s.toList.map escapeChar) ++ "\""

end Text

namespace Double

/-- A magnitude in scientific form: the first digit, the others after a point, and the exponent. -/
def scientific (digits : Nat) (exponent : Int) : String :=
  match Nat.toDigits 10 digits with
  | [] => ""
  | first :: rest =>
    let tail := if rest.isEmpty then "" else "." ++ String.ofList rest
    first.toString ++ tail ++ "e" ++ toString (exponent + rest.length)

/-- Shortest text that shows the number to be one of binary64: with a point, or with an exponent where it
is far from one. -/
def describe (d : Double) : String :=
  if d.isNaN then "NaN" else
  let (digits, exponent) := d.shortest .up
  let count : Int := (Nat.toDigits 10 digits).length
  let magnitude :=
    if d.isInfinite then "inf"
    else if digits ≠ 0 && (16 < count + exponent || count + exponent < -3) then scientific digits exponent
    else if 0 ≤ exponent then positional digits exponent ++ ".0"
    else positional digits exponent
  if d.isNegative then "-" ++ magnitude else magnitude

end Double

mutual

/-- The value with its form spelled out. -/
def Value.describe : Value → String
  | .null => "Null"
  | .bool b => "Bool(" ++ (if b then "true" else "false") ++ ")"
  | .int32 n => "Int32(" ++ toString n.toInt ++ ")"
  | .int64 n => "Int64(" ++ toString n.toInt ++ ")"
  | .double d => "Double(" ++ d.describe ++ ")"
  | .decimal s => "Decimal(" ++ Text.quoted s ++ ")"
  | .text s => "Text(" ++ Text.quoted s ++ ")"
  | .dateTime m => "DateTime(" ++ m.renderWith "T" ++ ")"
  | .guid s => "Guid(" ++ Text.quoted s ++ ")"
  | .binary bytes => "Binary([" ++ ", ".intercalate (bytes.map fun b => toString b.toNat) ++ "])"
  | .list items => "List([" ++ ", ".intercalate (Value.describeAll items) ++ "])"

def Value.describeAll : List Value → List String
  | [] => []
  | v :: rest => Value.describe v :: Value.describeAll rest

end

namespace Materialized

mutual

/-- The result with its form spelled out. -/
def describe : Materialized → String
  | .value v => "Value(" ++ v.describe ++ ")"
  | .object entity fields =>
    "Object(Object \x7b entity: " ++ Text.quoted entity ++ ", fields: [" ++
      ", ".intercalate (describeFields fields) ++ "] \x7d)"
  | .tuple items => "Tuple([" ++ ", ".intercalate (describeAll items) ++ "])"
  | .list items => "List([" ++ ", ".intercalate (describeAll items) ++ "])"

def describeAll : List Materialized → List String
  | [] => []
  | m :: rest => describe m :: describeAll rest

def describeFields : List (String × Materialized) → List String
  | [] => []
  | (name, m) :: rest => ("(" ++ Text.quoted name ++ ", " ++ describe m ++ ")") :: describeFields rest

end

end Materialized

end QueryTree
