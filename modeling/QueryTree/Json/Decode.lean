import QueryTree.Json.Basic
import QueryTree.Number.Whole

/-! Reading records and alternatives from JSON.

A record is an object, or an array of its fields in order. Members that are no field are passed over and a
field may be given once. An alternative is its name, or an object with the name as its only member.
-/

set_option autoImplicit false

namespace QueryTree

namespace Json

def string? : Json → Option String
  | .string s => some s
  | _ => none

def bool? : Json → Option Bool
  | .bool b => some b
  | _ => none

def integer? : Json → Option Int
  | .integer n => some n
  | _ => none

/-- A whole number from zero to `most`. -/
def natural? (most : Nat) : Json → Option Nat
  | .integer n => if 0 ≤ n ∧ n ≤ most then some n.toNat else none
  | _ => none

/-- An index or a size: a whole number of 64 bits. -/
def size? : Json → Option Nat := natural? maxSize

def double? : Json → Option Double
  | .integer n => some (.ofInt n)
  | .real d => some d
  | _ => none

def list? {α : Type} (item? : Json → Option α) : Json → Option (List α)
  | .array items => items.mapM item?
  | _ => none

/-- A value, or none for null. -/
def nullable? {α : Type} (value? : Json → Option α) : Json → Option (Option α)
  | .null => some none
  | json => (value? json).map some

/-- The members of a record with the given fields. -/
def record? (fields : List String) : Json → Option (List (String × Json))
  | .object members =>
    let known := members.filter fun m => fields.contains m.1
    if fields.all fun f => (known.filter (·.1 == f)).length ≤ 1 then some known else none
  | .array items => if items.length ≤ fields.length then some (fields.zip items) else none
  | _ => none

/-- The name of an alternative and what it holds. -/
def alternative? : Json → Option (String × Option Json)
  | .string name => some (name, none)
  | .object [(name, value)] => some (name, some value)
  | _ => none

/-- A name among some, with nothing held. -/
def named? {α : Type} (names : List (String × α)) (json : Json) : Option α := do
  let (name, held) ← alternative? json
  match held with
  | none | some .null => (names.find? (·.1 == name)).map (·.2)
  | some _ => none

end Json

/-- The members of a record that is being read. -/
abbrev Members := List (String × Json)

namespace Members

def find? (m : Members) (field : String) : Option Json := (List.find? (·.1 == field) m).map (·.2)

def required {α : Type} (m : Members) (field : String) (value? : Json → Option α) : Option α :=
  (find? m field).bind value?

/-- A field that may be missing. -/
def defaulted {α : Type} (m : Members) (field : String) (default : α) (value? : Json → Option α) :
    Option α :=
  match find? m field with
  | none => some default
  | some json => value? json

/-- A field that may be missing or null. -/
def optional {α : Type} (m : Members) (field : String) (value? : Json → Option α) : Option (Option α) :=
  m.defaulted field none (Json.nullable? value?)

end Members

end QueryTree
