import QueryTree.Error

/-! How many results a caller wants, and what it takes of them.

Results come one at a time from a source that says when there are no more. No more of them are taken than it
needs to know the answer.
-/

set_option autoImplicit false

namespace QueryTree

inductive Cardinality where
  | many
  | first
  | firstOrDefault
  | single
  | singleOrDefault
  deriving DecidableEq, Repr, Inhabited

/-- A source of state `s`: its next result if there is one, and the source after it. -/
abbrev Pull (m : Type → Type) (s α : Type) := s → m (Option (Except QueryError α) × s)

namespace Cardinality

variable {m : Type → Type} [Monad m] {s α : Type}

/-- All results up to the first error, of a source with fewer than `fuel`. -/
def takeAll (pull : Pull m s α) : Nat → s → m (Except QueryError (List α) × s)
  | 0, source => pure (.ok [], source)
  | fuel + 1, source => do
    match ← pull source with
    | (none, source) => pure (.ok [], source)
    | (some (.error e), source) => pure (.error e, source)
    | (some (.ok a), source) =>
      let (rest, source) ← takeAll pull fuel source
      return (rest.map (a :: ·), source)

/-- What no result comes to. -/
def missing : Cardinality → Except QueryError (List α)
  | .first | .single => .error .noRows
  | _ => .ok []

/-- The first result, when it is enough. -/
def takeFirst (c : Cardinality) (pull : Pull m s α) (source : s) : m (Except QueryError (List α) × s) := do
  match ← pull source with
  | (none, source) => return (c.missing, source)
  | (some result, source) => return (result.map fun a => [a], source)

/-- The first result, when a second shows there are too many. -/
def takeOnly (c : Cardinality) (pull : Pull m s α) (source : s) : m (Except QueryError (List α) × s) := do
  match ← pull source with
  | (none, source) => return (c.missing, source)
  | (some (.error e), source) => return (.error e, source)
  | (some (.ok a), source) =>
    match ← pull source with
    | (none, source) => return (.ok [a], source)
    | (some (.error e), source) => return (.error e, source)
    | (some (.ok _), source) => return (.error .multipleResults, source)

/-- The results a caller gets of a source with fewer than `fuel`, and what is left of the source. -/
def take (c : Cardinality) (pull : Pull m s α) (fuel : Nat) (source : s) :
    m (Except QueryError (List α) × s) :=
  match c with
  | .many => takeAll pull fuel source
  | .first | .firstOrDefault => c.takeFirst pull source
  | .single | .singleOrDefault => c.takeOnly pull source

/-- The name of a cardinality. -/
def name : Cardinality → String
  | .many => "many"
  | .first => "first"
  | .firstOrDefault => "first_or_default"
  | .single => "single"
  | .singleOrDefault => "single_or_default"

def all : List Cardinality := [.many, .first, .firstOrDefault, .single, .singleOrDefault]

end Cardinality

/-- No results at all make way for one that is given. -/
def orDefault {α : Type} (given : Unit → α) : List α → List α
  | [] => [given ()]
  | results => results

/-- A list as a source. -/
def pullList {α : Type} : Pull Id (List (Except QueryError α)) α
  | [] => (none, [])
  | result :: rest => (some result, rest)

end QueryTree
