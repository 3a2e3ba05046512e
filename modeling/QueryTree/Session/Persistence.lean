import QueryTree.Cache
import QueryTree.Command.Formatter
import QueryTree.Entity
import QueryTree.Session.Database

/-! Inserting, updating and deleting entities.

A command names the properties it sets, and its values are given by name: the new value of a property by the
name of the property, and the key an entity is found by under names of their own. Commands are compiled once
for an entity, an operation and a list of properties.
-/

set_option autoImplicit false

namespace QueryTree

inductive Operation where
  | insert
  | update
  | delete
  deriving DecidableEq, Repr, Inhabited

structure CommandKey where
  entity : String
  operation : Operation
  properties : List String
  deriving DecidableEq, Repr, Inhabited

abbrev CommandCache := Cache CommandKey Formatted

namespace Property

/-- What the key value is called that an entity is found by. -/
def keyName (p : Property) : String := "original." ++ p.name

/-- A slot for the value of the property. -/
def parameter (p : Property) : Node := .parameter p.name p.type

/-- The column has the value the key had. -/
def matchesKey (p : Property) : Node :=
  .equal (.column ⟨"", p.column, p.type⟩) (.parameter p.keyName p.type)

end Property

namespace Entity

def find (e : Entity) (name : String) : Except CompileError Property :=
  match e.property? name with
  | some p => .ok p
  | none => .error (.invalidNode (e.name ++ " has no property " ++ name))

/-- Holds for the one row whose key is given. -/
def keyFilter (e : Entity) : Except CompileError Node :=
  match Node.conjunction (e.primaryKey.map Property.matchesKey) with
  | some n => .ok n
  | none => .error (.invalidNode (e.name ++ " has no primary key"))

/-- Key values under the names the filter has for them. -/
def keyValues (e : Entity) (key : List (String × Value)) : Except CompileError Named :=
  key.foldlM (fun named (name, value) => do
    let p ← e.find name
    if p.primaryKey then return named.insert p.keyName value
    else .error (.invalidNode (e.name ++ "." ++ name ++ " is not part of the primary key"))) []

/-- The properties that are set, with their values added to `named`. -/
def assigned (e : Entity) (named : Named) (values : List (String × Value)) :
    Except CompileError (List Property × Named) := do
  let properties ← values.mapM fun (name, _) => e.find name
  let given := (properties.zip values).map fun (p, _, value) => (p.name, value)
  return (properties, given.foldl (fun named (name, value) => named.insert name value) named)

/-- The identity property is among those that are set. -/
def setsIdentity (e : Entity) (properties : List Property) : Bool :=
  e.identity?.any fun id => properties.any (·.name == id.name)

/-- The identity column, unless it is set. -/
def returning (e : Entity) (properties : List Property) : List String :=
  match e.identity? with
  | some id => if e.setsIdentity properties then [] else [id.column]
  | none => []

def insertNode (e : Entity) (properties : List Property) : Node :=
  .insert { table := e.table, columns := properties.map (·.column)
            values := properties.map Property.parameter
            returning := e.returning properties, identityInsert := e.setsIdentity properties }

def updateNode (e : Entity) (properties : List Property) : Except CompileError Node :=
  e.keyFilter.map fun filter =>
    .update { table := e.table, assignments := properties.map fun p => ⟨p.column, p.parameter⟩
              filter := some filter }

def deleteNode (e : Entity) : Except CompileError Node :=
  e.keyFilter.map fun filter => .delete e.table none (some filter)

end Entity

/-- What came of an insert. -/
structure Inserted where
  affected : Nat
  /-- The identity the database assigned. -/
  generated : Option Value
  deriving DecidableEq, Repr

namespace Dialect

variable (d : Dialect)

/-- The command of a key, compiled from `node` unless that was done. -/
def compiled (key : CommandKey) (node : Except CompileError Node) :
    ExceptT CompileError (StateM CommandCache) Formatted :=
  Cache.getOrCompile key fun _ => node >>= fun n => d.format (d.amend n)

/-- The command with values, and whether it returns an identity. -/
def insertCommand (e : Entity) (values : List (String × Value)) :
    ExceptT CompileError (StateM CommandCache) (Command × Bool) := do
  let (properties, named) ← ExceptT.mk (pure (e.assigned [] values))
  let formatted ← d.compiled ⟨e.name, .insert, properties.map (·.name)⟩ (.ok (e.insertNode properties))
  let command ← ExceptT.mk (pure (formatted.bind [] named))
  return (command, !(e.returning properties).isEmpty)

/-- Nothing to do for nothing changed. -/
def updateCommand (e : Entity) (key changed : List (String × Value)) :
    ExceptT CompileError (StateM CommandCache) (Option Command) := do
  if changed.isEmpty then return none
  let named ← ExceptT.mk (pure (e.keyValues key))
  let (properties, named) ← ExceptT.mk (pure (e.assigned named changed))
  let formatted ← d.compiled ⟨e.name, .update, properties.map (·.name)⟩ (e.updateNode properties)
  return some (← ExceptT.mk (pure (formatted.bind [] named)))

def deleteCommand (e : Entity) (key : List (String × Value)) :
    ExceptT CompileError (StateM CommandCache) Command := do
  let named ← ExceptT.mk (pure (e.keyValues key))
  let formatted ← d.compiled ⟨e.name, .delete, []⟩ e.deleteNode
  ExceptT.mk (pure (formatted.bind [] named))

end Dialect

structure Store (σ : Type) where
  dialect : Dialect
  database : Database σ

/-- The commands of a store, and its database. -/
structure StoreState (σ : Type) where
  commands : CommandCache
  channel : Channel σ

namespace StoreState

variable {σ α : Type}

def onCommands (x : ExceptT CompileError (StateM CommandCache) α) :
    ExceptT QueryError (StateM (StoreState σ)) α :=
  fun s =>
    let (result, commands) := x s.commands
    (result.mapError .compile, { s with commands })

def onChannel (x : ExceptT QueryError (StateM (Channel σ)) α) :
    ExceptT QueryError (StateM (StoreState σ)) α :=
  fun s =>
    let (result, channel) := x s.channel
    (result, { s with channel })

end StoreState

namespace Store

variable {σ : Type} (s : Store σ)

/-- An insert that returns an identity is asked for as a value. -/
def insert (e : Entity) (values : List (String × Value)) :
    ExceptT QueryError (StateM (StoreState σ)) Inserted := do
  let (command, returnsKey) ← StoreState.onCommands (s.dialect.insertCommand e values)
  if returnsKey then
    return { affected := 1, generated := some (← StoreState.onChannel (Channel.scalar s.database command)) }
  else
    return { affected := ← StoreState.onChannel (Channel.run s.database command), generated := none }

def update (e : Entity) (key changed : List (String × Value)) :
    ExceptT QueryError (StateM (StoreState σ)) Nat := do
  match ← StoreState.onCommands (s.dialect.updateCommand e key changed) with
  | some command => StoreState.onChannel (Channel.run s.database command)
  | none => return 0

def delete (e : Entity) (key : List (String × Value)) : ExceptT QueryError (StateM (StoreState σ)) Nat := do
  let command ← StoreState.onCommands (s.dialect.deleteCommand e key)
  StoreState.onChannel (Channel.run s.database command)

end Store

end QueryTree
