import QueryTree.Node.Basic

/-! What can go wrong before a command exists, and while its rows are read. -/

set_option autoImplicit false

namespace QueryTree

/-- A tree that cannot be written as a command, or a command whose values are not all given. -/
inductive CompileError where
  | unsupportedNode (kind : Kind)
  | unsupportedRoutine (routine : Routine) (dialect : String)
  | invalidNode (reason : String)
  | unresolvedColumn (name : String)
  | missingPlaceholder (index : Nat)
  | missingParameter (name : String)
  deriving DecidableEq, Repr

def CompileError.message : CompileError → String
  | .unsupportedNode kind => "unsupported node: " ++ kind.name
  | .unsupportedRoutine routine dialect =>
    "function " ++ routine.name ++ " is not supported by the " ++ dialect ++ " dialect"
  | .invalidNode reason => "invalid node: " ++ reason
  | .unresolvedColumn name => "projection references unknown column: " ++ name
  | .missingPlaceholder index => "no value bound for placeholder " ++ toString index
  | .missingParameter name => "no value bound for parameter " ++ name

/-- A query that fails: before it runs, in the database, or on its rows. -/
inductive QueryError where
  | compile (error : CompileError)
  | noRows
  | multipleResults
  | projection (reason : String)
  /-- Raised by the database, with its text unchanged. -/
  | execution (text : String)
  deriving DecidableEq, Repr

def QueryError.message : QueryError → String
  | .compile error => error.message
  | .noRows => "sequence contains no elements"
  | .multipleResults => "sequence contains more than one element"
  | .projection reason => "projection failed: " ++ reason
  | .execution text => text

end QueryTree
