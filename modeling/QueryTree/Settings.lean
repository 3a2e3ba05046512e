import QueryTree.Dialect.Shipped
import QueryTree.Pass.Standard

/-! What a user may set, and what the settings select. -/

set_option autoImplicit false

namespace QueryTree

structure Settings where
  dialect : DialectName := .postgres
  /-- Compiled queries kept. -/
  planCapacity : Nat := 1024
  /-- Compiled insert, update and delete commands kept. -/
  commandCapacity : Nat := 512
  maxRounds : Nat := 8
  disabledPasses : List String := []
  /-- SQL Server skips rows with `OFFSET` rather than by numbering them. -/
  offsetFetch : Bool := false
  logCommands : Bool := false
  deriving DecidableEq, Repr, Inhabited

namespace Settings

def shipped (s : Settings) : Shipped := s.dialect.shipped s.offsetFetch

/-- All passes but the disabled ones; a name that is no pass disables nothing. -/
def pipeline (s : Settings) : Pipeline :=
  s.disabledPasses.foldl Pipeline.remove { Pipeline.standard with maxRounds := s.maxRounds }

end Settings

end QueryTree
