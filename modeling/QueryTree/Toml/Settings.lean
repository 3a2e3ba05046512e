import QueryTree.Json.Settings
import QueryTree.Toml.Reader

/-! Settings from a configuration file. -/

set_option autoImplicit false

namespace QueryTree

namespace Toml

/-- A dialect by name, or as the only member of a table, which holds nothing. -/
def dialect? (json : Json) : Option DialectName := do
  let (name, held) ← Json.alternative? json
  match held with
  | none | some (.object []) | some (.array []) => (Json.dialectNames.find? (·.1 == name)).map (·.2)
  | some _ => none

end Toml

/-- Settings of a text; keys that mean nothing are passed over. -/
def Settings.parse? (text : String) : Option Settings :=
  (Toml.parse? text).bind (Json.settingsOf? Toml.dialect?)

end QueryTree
