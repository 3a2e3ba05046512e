import QueryTree.Json.Node
import QueryTree.Projection.Basic
import QueryTree.Projection.Result

/-! Queries, projections and their results as JSON. -/

set_option autoImplicit false

namespace QueryTree

namespace Json

/-- An object of values; the last of a name counts. -/
def namedValues? : Json → Option Named
  | .object members =>
    members.foldlM (fun named (name, json) => (value? json).map fun v => Named.insert named name v) []
  | _ => none

def boundQueryOf? (projection? : Json → Option Projection) (json : Json) : Option BoundQuery := do
  let m : Members ← record? ["root", "projection", "element_type", "parameters", "arguments"] json
  return { root := ← m.required "root" node?
           projection := ← m.optional "projection" projection?
           elementType := ← m.defaulted "element_type" .void dataType?
           parameters := ← m.defaulted "parameters" [] namedValues?
           arguments := ← m.defaulted "arguments" [] (list? value?) }

def projectionWithin? : Nat → Json → Option Projection
  | 0, _ => none
  | fuel + 1, json => do
    let projection? := projectionWithin? fuel
    match ← alternative? json with
    | ("Column", some held) =>
      let m : Members ← record? ["name", "data_type"] held
      return .column (← m.required "name" string?) (← m.required "data_type" dataType?)
    | ("Constant", some held) => (value? held).map .constant
    | ("Placeholder", some held) => (size? held).map .argument
    | ("Entity", some held) =>
      let m : Members ← record? ["entity", "fields"] held
      return .entity (← m.required "entity" string?)
        (← m.required "fields" (list? (binding? projection? "name" "value")))
    | ("Tuple", some held) => (list? projection? held).map .tuple
    | ("Nested", some held) =>
      let m : Members ← record? ["query", "correlations"] held
      return .nested (← m.required "query" (boundQueryOf? projection?))
        (← m.required "correlations" (list? (binding? projection? "parameter" "value")))
    | _ => none

def projection? (json : Json) : Option Projection := projectionWithin? (json.depth + 1) json

def boundQuery? (json : Json) : Option BoundQuery := boundQueryOf? projection? json

end Json

namespace Materialized

mutual

def toJson : Materialized → Json
  | .value v => .tagged "Value" v.toJson
  | .object entity fields =>
    .tagged "Object" (.object [("entity", .string entity), ("fields", .array (fieldsJson fields))])
  | .tuple items => .tagged "Tuple" (.array (listJson items))
  | .list items => .tagged "List" (.array (listJson items))

def listJson : List Materialized → List Json
  | [] => []
  | m :: rest => toJson m :: listJson rest

def fieldsJson : List (String × Materialized) → List Json
  | [] => []
  | (name, m) :: rest => .array [.string name, toJson m] :: fieldsJson rest

end

end Materialized

end QueryTree
