import QueryTree.Node.Build
import QueryTree.Projection.Basic
import QueryTree.Projection.Read
import QueryTree.Projection.Result

/-! Projections compiled against the query they belong to.

A projector knows each column by its place in the row and each literal and nested query by its number, so one
projector serves all projections that are alike. The values are given when a row is projected.
-/

set_option autoImplicit false

namespace QueryTree

structure Row where
  columns : List String
  values : List Value
  deriving DecidableEq, Repr, Inhabited

/-- The cell of the first column of a name. -/
def Row.named? (r : Row) (name : String) : Option Value :=
  (r.columns.findIdx? (· == name)).bind fun place => r.values[place]?

inductive Step where
  /-- The row as it is. -/
  | row
  | place (ordinal : Nat) (type : DataType)
  | named (name : String) (type : DataType)
  | constant (number : Nat)
  | argument (index : Nat)
  | entity (name : String) (fields : List (Binding Step))
  | tuple (items : List Step)
  | nested (number : Nat) (correlations : List (Binding Step))
  deriving Inhabited

/-- How many literals and nested queries there are. -/
structure SlotCounts where
  constants : Nat := 0
  nested : Nat := 0
  deriving DecidableEq, Repr, Inhabited

structure Projector where
  root : Step
  counts : SlotCounts
  deriving Inhabited

namespace Projector

/-- Numbers go up while a projection is compiled. -/
abbrev Compile := StateT SlotCounts (Except CompileError)

/-- A select that passes on every column of its source has them in an order of the database. -/
def column (query : Option (Select Node)) (name : String) (type : DataType) : Except CompileError Step :=
  match query with
  | none => .error (.invalidNode ("column " ++ name ++ " projected from a non-query statement"))
  | some q =>
    if q.projectsStar then .ok (.named name type)
    else match q.columnIndex? name with
      | some ordinal => .ok (.place ordinal type)
      | none => .error (.unresolvedColumn name)

mutual

def step (query : Option (Select Node)) : Projection → Compile Step
  | .column name type => column query name type
  | .constant _ => fun counts =>
    .ok (.constant counts.constants, { counts with constants := counts.constants + 1 })
  | .argument index => pure (.argument index)
  | .entity name fields => return .entity name (← stepBindings query fields)
  | .tuple items => return .tuple (← stepList query items)
  | .nested _ correlations => do
    let number := (← get).nested
    modify fun counts => { counts with nested := number + 1 }
    return .nested number (← stepBindings query correlations)

def stepList (query : Option (Select Node)) : List Projection → Compile (List Step)
  | [] => pure []
  | p :: rest => return (← step query p) :: (← stepList query rest)

def stepBindings (query : Option (Select Node)) : List (Binding Projection) → Compile (List (Binding Step))
  | [] => pure []
  | ⟨name, p⟩ :: rest => return ⟨name, ← step query p⟩ :: (← stepBindings query rest)

end

/-- The projector of a query with that root; without a projection it gives the rows themselves. -/
def compile (projection : Option Projection) (root : Node) : Except CompileError Projector :=
  match projection with
  | none => .ok { root := .row, counts := {} }
  | some p => (step root.select? p {}).map fun (root, counts) => ⟨root, counts⟩

end Projector

/-- Makes the result of an entity from its fields. -/
abbrev Factory := String → List (String × Materialized) → Materialized

/-- What a row is projected with. -/
structure Surroundings (m : Type → Type) where
  arguments : List Value
  values : ProjectionValues
  construct : Factory
  /-- Runs a nested query, whose parameters are all given. -/
  run : BoundQuery → ExceptT QueryError m (List Materialized)

/-- A correlation that is not a value is no parameter. -/
def Materialized.asParameter (name : String) : Materialized → Except QueryError Value
  | .value v => .ok v
  | m => .error (.projection ("correlation " ++ name ++ " is not a scalar: " ++ m.describe))

def Query.withParameters (q : BoundQuery) (given : List (String × Value)) : BoundQuery :=
  { q with parameters := given.foldl (fun named (name, value) => named.insert name value) q.parameters }

def Row.whole (r : Row) : Materialized :=
  match r.values with
  | [single] => .value single
  | values => .tuple (values.map .value)

def Row.place (r : Row) (ordinal : Nat) : Except QueryError Value :=
  match r.values[ordinal]? with
  | some v => .ok v
  | none =>
    .error (.projection ("row has " ++ toString r.values.length ++ " columns, projector reads column " ++
      toString ordinal))

def Row.named (r : Row) (name : String) : Except QueryError Value :=
  match r.named? name with
  | some v => .ok v
  | none => .error (.projection ("row has no column named " ++ name))

namespace Surroundings

variable {m : Type → Type}

/-- Values that belong to a projection of another form. -/
def mismatch : QueryError := .projection "projection values do not match the compiled projector"

def argument (s : Surroundings m) (index : Nat) : Except QueryError Value :=
  match s.arguments[index]? with
  | some v => .ok v
  | none => .error (.projection ("no argument " ++ toString index ++ " for projection"))

def constant (s : Surroundings m) (number : Nat) : Except QueryError Value :=
  match s.values.constants[number]? with
  | some v => .ok v
  | none => .error mismatch

def nested (s : Surroundings m) (number : Nat) : Except QueryError BoundQuery :=
  match s.values.nested[number]? with
  | some q => .ok q
  | none => .error mismatch

end Surroundings

namespace Step

variable {m : Type → Type} [Monad m] (s : Surroundings m) (r : Row)

mutual

def eval : Step → ExceptT QueryError m Materialized
  | .row => pure r.whole
  | .place ordinal type => ExceptT.mk (pure ((r.place ordinal >>= Value.readAs type).map .value))
  | .named name type => ExceptT.mk (pure ((r.named name >>= Value.readAs type).map .value))
  | .constant number => ExceptT.mk (pure ((s.constant number).map .value))
  | .argument index => ExceptT.mk (pure ((s.argument index).map .value))
  | .entity name fields => return s.construct name (← evalFields fields)
  | .tuple items => return .tuple (← evalList items)
  | .nested number correlations => do
    let query ← ExceptT.mk (pure (s.nested number))
    let given ← evalCorrelations correlations
    return .list (← s.run (query.withParameters given))

def evalList : List Step → ExceptT QueryError m (List Materialized)
  | [] => pure []
  | step :: rest => return (← eval step) :: (← evalList rest)

def evalFields : List (Binding Step) → ExceptT QueryError m (List (String × Materialized))
  | [] => pure []
  | ⟨name, step⟩ :: rest => return (name, ← eval step) :: (← evalFields rest)

def evalCorrelations : List (Binding Step) → ExceptT QueryError m (List (String × Value))
  | [] => pure []
  | ⟨name, step⟩ :: rest => do
    let value ← ExceptT.mk (pure ((← eval step).asParameter name))
    return (name, value) :: (← evalCorrelations rest)

end

end Step

/-- The result of a row. -/
def Projector.project {m : Type → Type} [Monad m] (p : Projector) (s : Surroundings m) (r : Row) :
    ExceptT QueryError m Materialized :=
  if s.values.constants.length = p.counts.constants ∧ s.values.nested.length = p.counts.nested then
    p.root.eval s r
  else throw Surroundings.mismatch

end QueryTree
