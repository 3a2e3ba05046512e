/-! The types a query tree carries.

A type says what a consumer of a node would read. Statements have type `void`; a tuple is typed by
its elements and an entity by its name.
-/

set_option autoImplicit false

namespace QueryTree

inductive DataType where
  | void
  | boolean
  | int32
  | int64
  | double
  | decimal
  | text
  | dateTime
  | guid
  | binary
  /-- A named enumeration: a type of its own where the database has them, text elsewhere. -/
  | enumeration (name : String)
  | entity (name : String)
  | tuple (items : List DataType)
  | sequence (item : DataType)
  | nullable (item : DataType)
  | unknown
  deriving Repr, Inhabited

namespace DataType

mutual

def same : DataType → DataType → Bool
  | .void, .void | .boolean, .boolean | .int32, .int32 | .int64, .int64 | .double, .double
  | .decimal, .decimal | .text, .text | .dateTime, .dateTime | .guid, .guid | .binary, .binary
  | .unknown, .unknown => true
  | .enumeration a, .enumeration b | .entity a, .entity b => a == b
  | .tuple as, .tuple bs => sameAll as bs
  | .sequence a, .sequence b | .nullable a, .nullable b => same a b
  | _, _ => false

def sameAll : List DataType → List DataType → Bool
  | [], [] => true
  | a :: as, b :: bs => same a b && sameAll as bs
  | _, _ => false

end

mutual

theorem same_iff : ∀ a b : DataType, same a b = true ↔ a = b
  | .tuple as, b => by cases b <;> simp [same, sameAll_iff as]
  | .sequence a, b => by cases b <;> simp [same, same_iff a]
  | .nullable a, b => by cases b <;> simp [same, same_iff a]
  | .void, b | .boolean, b | .int32, b | .int64, b | .double, b | .decimal, b | .text, b
  | .dateTime, b | .guid, b | .binary, b | .unknown, b => by cases b <;> simp [same]
  | .enumeration a, b | .entity a, b => by cases b <;> simp [same]

theorem sameAll_iff : ∀ as bs : List DataType, sameAll as bs = true ↔ as = bs
  | [], bs => by cases bs <;> simp [sameAll]
  | a :: as, bs => by cases bs <;> simp [sameAll, same_iff a, sameAll_iff as]

end

instance : DecidableEq DataType := fun a b =>
  decidable_of_iff (same a b = true) (same_iff a b)

/-- The type without its `nullable` wrappers. -/
def underlying : DataType → DataType
  | .nullable item => item.underlying
  | type => type

/-- The type with exactly one `nullable` wrapper, if it has any. -/
def toNullable : DataType → DataType
  | .nullable item => .nullable item
  | type => .nullable type

/-- The item type of a sequence; the type itself otherwise. -/
def element : DataType → DataType
  | .sequence item => item
  | type => type

def isBoolean (type : DataType) : Bool := type.underlying = .boolean

def isText (type : DataType) : Bool := type.underlying = .text

def isNumeric (type : DataType) : Bool :=
  match type.underlying with
  | .int32 | .int64 | .double | .decimal => true
  | _ => false

mutual

/-- The type as messages spell it. -/
def render : DataType → String
  | .void => "void"
  | .boolean => "bool"
  | .int32 => "int32"
  | .int64 => "int64"
  | .double => "double"
  | .decimal => "decimal"
  | .text => "text"
  | .dateTime => "datetime"
  | .guid => "guid"
  | .binary => "binary"
  | .enumeration name => "enum " ++ name
  | .entity name => name
  | .tuple items => "(" ++ ", ".intercalate (renderAll items) ++ ")"
  | .sequence item => "seq<" ++ render item ++ ">"
  | .nullable item => render item ++ "?"
  | .unknown => "unknown"

def renderAll : List DataType → List String
  | [] => []
  | item :: rest => render item :: renderAll rest

end

end DataType

end QueryTree
