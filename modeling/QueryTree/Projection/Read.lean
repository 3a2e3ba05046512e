import QueryTree.Error

/-! Reading a cell of a row as a type.

Databases answer with types near the one asked for: an integer of another width, an integer for a boolean, a
number for a decimal. Such a cell is converted where nothing is lost. A null is refused by the plain types.
-/

set_option autoImplicit false

namespace QueryTree

/-- Has no null among its values. -/
def DataType.refusesNull : DataType → Bool
  | .boolean | .int32 | .int64 | .double | .decimal | .dateTime | .guid => true
  | _ => false

namespace Value

/-- A value that is not null as one of a type, which is not nullable. -/
def convert? (type : DataType) (value : Value) : Option Value :=
  match type, value with
  | .boolean, .bool b => some (.bool b)
  | .boolean, .int32 n => some (.bool (n ≠ 0))
  | .boolean, .int64 n => some (.bool (n ≠ 0))
  | .int32, .int32 n => some (.int32 n)
  | .int32, .int64 n => if n.toInt32.toInt64 = n then some (.int32 n.toInt32) else none
  | .int64, .int32 n => some (.int64 n.toInt64)
  | .int64, .int64 n => some (.int64 n)
  | .double, .double _ | .double, .int32 _ | .double, .int64 _ | .double, .decimal _ =>
    value.double?.map .double
  | .decimal, .decimal s => some (.decimal s)
  | .decimal, .int32 _ | .decimal, .int64 _ | .decimal, .double _ => some (.decimal value.render)
  | .guid, .guid s | .guid, .text s => some (.guid s)
  | .text, .text s | .enumeration _, .text s => some (.text s)
  | .dateTime, .dateTime _ | .binary, .binary _ => some value
  | .unknown, _ | .entity _, _ | .tuple _, _ | .sequence _, _ => some value
  | _, _ => none

def readAs (type : DataType) (value : Value) : Except QueryError Value :=
  if value.isNull then
    if type.refusesNull then .error (.projection ("null read as non-nullable " ++ type.render)) else .ok .null
  else match value.convert? type.underlying with
    | some v => .ok v
    | none => .error (.projection ("cannot read " ++ value.render ++ " as " ++ type.render))

end Value

end QueryTree
