import QueryTree.DataType

/-! Entities: which table holds them, and which column holds each property. -/

set_option autoImplicit false

namespace QueryTree

structure Property where
  name : String
  column : String
  type : DataType
  primaryKey : Bool := false
  /-- The database assigns the value. -/
  identity : Bool := false
  nullable : Bool := false
  deriving DecidableEq, Repr, Inhabited

structure Entity where
  name : String
  table : String
  properties : List Property := []
  deriving DecidableEq, Repr, Inhabited

namespace Entity

def primaryKey (e : Entity) : List Property := e.properties.filter (·.primaryKey)

def property? (e : Entity) (name : String) : Option Property := e.properties.find? (·.name == name)

def identity? (e : Entity) : Option Property := e.properties.find? (·.identity)

def dataType (e : Entity) : DataType := .entity e.name

end Entity

end QueryTree
