import QueryTree.Command.Basic
import QueryTree.Json.Value

/-! Commands, their slots and their values as JSON. -/

set_option autoImplicit false

namespace QueryTree

def TypedValue.toJson (t : TypedValue) : Json :=
  .object [("value", t.value.toJson), ("data_type", t.type.toJson)]

def SlotSource.toJson : SlotSource → Json
  | .literal v => .tagged "Literal" v.toJson
  | .placeholder index => .tagged "Placeholder" (.integer index)
  | .named name => .tagged "Named" (.string name)

def Slot.toJson (s : Slot) : Json :=
  .object [("source", s.source.toJson), ("data_type", s.type.toJson)]

def Command.toJson (c : Command) : Json :=
  .object [("text", .string c.text), ("parameters", .array (c.parameters.map TypedValue.toJson))]

end QueryTree
