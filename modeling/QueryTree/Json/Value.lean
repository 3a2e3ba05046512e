import QueryTree.Json.Decode
import QueryTree.Routine

/-! Values, types and routines as JSON. -/

set_option autoImplicit false

namespace QueryTree

namespace Json

/-- The types without parts. -/
def plainTypes : List (String × DataType) :=
  [("Void", .void), ("Boolean", .boolean), ("Int32", .int32), ("Int64", .int64), ("Double", .double),
    ("Decimal", .decimal), ("Text", .text), ("DateTime", .dateTime), ("Guid", .guid), ("Binary", .binary),
    ("Unknown", .unknown)]

def dataTypeWithin? : Nat → Json → Option DataType
  | 0, _ => none
  | fuel + 1, json =>
    match named? plainTypes json with
    | some type => some type
    | none =>
      match alternative? json with
      | some ("Enum", some held) => (string? held).map .enumeration
      | some ("Entity", some held) => (string? held).map .entity
      | some ("Tuple", some held) => (list? (dataTypeWithin? fuel) held).map .tuple
      | some ("Sequence", some held) => (dataTypeWithin? fuel held).map .sequence
      | some ("Nullable", some held) => (dataTypeWithin? fuel held).map .nullable
      | _ => none

def dataType? (json : Json) : Option DataType := dataTypeWithin? (json.depth + 1) json

def int32? : Json → Option Int32
  | .integer n => if fitsInt32 n then some (Int32.ofInt n) else none
  | _ => none

def int64? : Json → Option Int64
  | .integer n => if fitsInt64 n then some (Int64.ofInt n) else none
  | _ => none

def byte? (json : Json) : Option UInt8 := (natural? 255 json).map Nat.toUInt8

def valueWithin? : Nat → Json → Option Value
  | 0, _ => none
  | fuel + 1, json =>
    match alternative? json with
    | some ("Null", none) | some ("Null", some .null) => some .null
    | some ("Bool", some held) => (bool? held).map .bool
    | some ("Int32", some held) => (int32? held).map .int32
    | some ("Int64", some held) => (int64? held).map .int64
    | some ("Double", some held) => (double? held).map .double
    | some ("Decimal", some held) => (string? held).map .decimal
    | some ("Text", some held) => (string? held).map .text
    | some ("DateTime", some held) => ((string? held).bind Moment.parse?).map .dateTime
    | some ("Guid", some held) => (string? held).map .guid
    | some ("Binary", some held) => (list? byte? held).map .binary
    | some ("List", some held) => (list? (valueWithin? fuel) held).map .list
    | _ => none

def value? (json : Json) : Option Value := valueWithin? (json.depth + 1) json

/-- The routines that are not named by the query. -/
def routines : List Routine :=
  [.concat, .coalesce, .upper, .lower, .trim, .length, .substring, .startsWith, .endsWith, .containsString,
    .like, .isIn, .abs, .round, .now, .year, .month, .day, .rowNumber, .cast]

def routine? (json : Json) : Option Routine :=
  match named? (routines.map fun r => (r.name, r)) json with
  | some routine => some routine
  | none =>
    match alternative? json with
    | some ("Custom", some held) => (string? held).map .custom
    | _ => none

def tagged (tag : String) (held : Json) : Json := .object [(tag, held)]

def ofStrings (list : List String) : Json := .array (list.map .string)

def ofOption {α : Type} (toJson : α → Json) : Option α → Json
  | some a => toJson a
  | none => .null

end Json

mutual

def DataType.toJson : DataType → Json
  | .void => .string "Void"
  | .boolean => .string "Boolean"
  | .int32 => .string "Int32"
  | .int64 => .string "Int64"
  | .double => .string "Double"
  | .decimal => .string "Decimal"
  | .text => .string "Text"
  | .dateTime => .string "DateTime"
  | .guid => .string "Guid"
  | .binary => .string "Binary"
  | .enumeration name => .tagged "Enum" (.string name)
  | .entity name => .tagged "Entity" (.string name)
  | .tuple items => .tagged "Tuple" (.array (toJsons items))
  | .sequence item => .tagged "Sequence" item.toJson
  | .nullable item => .tagged "Nullable" item.toJson
  | .unknown => .string "Unknown"

def DataType.toJsons : List DataType → List Json
  | [] => []
  | item :: rest => item.toJson :: toJsons rest

end

mutual

def Value.toJson : Value → Json
  | .null => .string "Null"
  | .bool b => .tagged "Bool" (.bool b)
  | .int32 n => .tagged "Int32" (.integer n.toInt)
  | .int64 n => .tagged "Int64" (.integer n.toInt)
  | .double d => .tagged "Double" (.real d)
  | .decimal s => .tagged "Decimal" (.string s)
  | .text s => .tagged "Text" (.string s)
  | .dateTime m => .tagged "DateTime" (.string (m.renderWith "T"))
  | .guid s => .tagged "Guid" (.string s)
  | .binary bytes => .tagged "Binary" (.array (bytes.map fun b => .integer b.toNat))
  | .list items => .tagged "List" (.array (toJsons items))

def Value.toJsons : List Value → List Json
  | [] => []
  | item :: rest => item.toJson :: toJsons rest

end

def Routine.toJson : Routine → Json
  | .custom name => .tagged "Custom" (.string name)
  | routine => .string routine.name

end QueryTree
