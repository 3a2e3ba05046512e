import QueryTree.Json.Value
import QueryTree.Settings

/-! Settings as JSON; every member may be missing. -/

set_option autoImplicit false

namespace QueryTree

namespace Json

def dialectNames : List (String × DialectName) :=
  [DialectName.postgres, .sqlite, .sqlServer].map fun d => (d.name, d)

def settingsFields : List String :=
  ["dialect", "plan_cache_capacity", "command_cache_capacity", "max_optimizer_iterations",
    "disabled_passes", "sql_server_offset_fetch", "log_sql"]

/-- Settings from their members, given how the dialect is named. -/
def settingsOf? (dialect? : Json → Option DialectName) (m : Members) : Option Settings := do
  let default : Settings := {}
  return { dialect := ← m.defaulted "dialect" default.dialect dialect?
           planCapacity := ← m.defaulted "plan_cache_capacity" default.planCapacity size?
           commandCapacity := ← m.defaulted "command_cache_capacity" default.commandCapacity size?
           maxRounds := ← m.defaulted "max_optimizer_iterations" default.maxRounds size?
           disabledPasses := ← m.defaulted "disabled_passes" [] (list? string?)
           offsetFetch := ← m.defaulted "sql_server_offset_fetch" false bool?
           logCommands := ← m.defaulted "log_sql" false bool? }

def settings? (json : Json) : Option Settings := do
  settingsOf? (named? dialectNames) (← record? settingsFields json)

end Json

def Settings.toJson (s : Settings) : Json :=
  .object [("dialect", .string s.dialect.name), ("plan_cache_capacity", .integer s.planCapacity),
    ("command_cache_capacity", .integer s.commandCapacity),
    ("max_optimizer_iterations", .integer s.maxRounds), ("disabled_passes", .ofStrings s.disabledPasses),
    ("sql_server_offset_fetch", .bool s.offsetFetch), ("log_sql", .bool s.logCommands)]

end QueryTree
