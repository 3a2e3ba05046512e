import QueryTree.Entity
import QueryTree.Json.Value

/-! Entities as JSON. -/

set_option autoImplicit false

namespace QueryTree

namespace Json

def property? (json : Json) : Option Property := do
  let m : Members ← record? ["name", "column", "data_type", "primary_key", "identity", "nullable"] json
  return { name := ← m.required "name" string?
           column := ← m.required "column" string?
           type := ← m.required "data_type" dataType?
           primaryKey := ← m.defaulted "primary_key" false bool?
           identity := ← m.defaulted "identity" false bool?
           nullable := ← m.defaulted "nullable" false bool? }

def entity? (json : Json) : Option Entity := do
  let m : Members ← record? ["name", "table", "properties"] json
  return { name := ← m.required "name" string?
           table := ← m.required "table" string?
           properties := ← m.required "properties" (list? property?) }

end Json

def Property.toJson (p : Property) : Json :=
  .object [("name", .string p.name), ("column", .string p.column), ("data_type", p.type.toJson),
    ("primary_key", .bool p.primaryKey), ("identity", .bool p.identity), ("nullable", .bool p.nullable)]

def Entity.toJson (e : Entity) : Json :=
  .object [("name", .string e.name), ("table", .string e.table),
    ("properties", .array (e.properties.map Property.toJson))]

end QueryTree
