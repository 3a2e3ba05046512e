import QueryTree.Session.Cardinality
import QueryTree.Session.Database
import QueryTree.Session.Planner

/-! Running queries.

A running query is an enumerator over the results of its rows. It holds a reader until its rows are at an
end, until something fails, or until it is dropped; whatever comes first closes the reader. The queries
nested in a projection run while the reader of the row is open.
-/

set_option autoImplicit false

namespace QueryTree

/-- The plans of a provider, and its database. -/
structure Session (σ : Type) where
  plans : PlanCache
  channel : Channel σ

namespace Session

variable {σ α : Type}

def onPlans (x : ExceptT CompileError (StateM PlanCache) α) :
    ExceptT QueryError (StateM (Session σ)) α :=
  fun s =>
    let (result, plans) := x s.plans
    (result.mapError .compile, { s with plans })

def onChannel (x : ExceptT QueryError (StateM (Channel σ)) α) :
    ExceptT QueryError (StateM (Session σ)) α :=
  fun s =>
    let (result, channel) := x s.channel
    (result, { s with channel })

def read (r : Reader) : StateM (Session σ) (Except String (Option Row × Reader)) := fun s =>
  let (row, channel) := Channel.read r s.channel
  (row, { s with channel })

def close (r : Reader) : StateM (Session σ) Unit := fun s =>
  let (_, channel) := Channel.close r s.channel
  ((), { s with channel })

end Session

/-- A running query. -/
structure Enumerator where
  /-- None once it is closed. -/
  reader : Option Reader
  plan : Plan
  values : ProjectionValues
  arguments : List Value

structure Provider (σ : Type) where
  planner : Planner
  database : Database σ
  construct : Factory := Materialized.object

/-- How nested queries are run. -/
abbrev Run (σ : Type) := BoundQuery → ExceptT QueryError (StateM (Session σ)) (List Materialized)

namespace Enumerator

def isOpen (e : Enumerator) : Bool := e.reader.isSome

/-- Results there may be still, and the end of them. -/
def remaining (e : Enumerator) : Nat :=
  match e.reader with
  | some r => r.rest.rows.length + 1
  | none => 0

/-- Close the reader, unless that is done. -/
def close {σ : Type} (e : Enumerator) : StateM (Session σ) Enumerator := do
  match e.reader with
  | some r =>
    Session.close r
    return { e with reader := none }
  | none => return e

/-- The result of a row. -/
def project {σ : Type} (e : Enumerator) (construct : Factory) (run : Run σ) (row : Row) :
    StateM (Session σ) (Except QueryError Materialized) :=
  e.plan.projector.project { arguments := e.arguments, values := e.values, construct, run } row

/-- The next result, or none after the last or once closed. -/
def next {σ : Type} (construct : Factory) (run : Run σ) :
    Pull (StateM (Session σ)) Enumerator Materialized :=
  fun e => do
    match e.reader with
    | none => return (none, e)
    | some r =>
      match ← Session.read r with
      | .error text => return (some (.error (.execution text)), ← e.close)
      | .ok (none, r) => return (none, ← { e with reader := some r }.close)
      | .ok (some row, r) =>
        let e := { e with reader := some r }
        match ← e.project construct run row with
        | .ok result => return (some (.ok result), e)
        | .error error => return (some (.error error), ← e.close)

/-- The results a caller gets; the query is dropped after that. -/
def take {σ : Type} (construct : Factory) (run : Run σ) (c : Cardinality) (e : Enumerator) :
    StateM (Session σ) (Except QueryError (List Materialized)) := do
  let (results, e) ← c.take (next construct run) e.remaining e
  let _ ← e.close
  return results

end Enumerator

namespace Provider

variable {σ : Type} (p : Provider σ)

/-- The command of a query, compiled unless one like it was. -/
def prepare (q : BoundQuery) : ExceptT QueryError (StateM (Session σ)) Prepared :=
  Session.onPlans (p.planner.prepare q)

/-- Start a query. -/
def execute (q : BoundQuery) : ExceptT QueryError (StateM (Session σ)) Enumerator := do
  let prepared ← p.prepare q
  let reader ← Session.onChannel (Channel.openReader p.database prepared.command)
  return { reader := some reader, plan := prepared.plan, values := q.values, arguments := q.arguments }

/-- The results of a query, given how nested ones are run. -/
def collect (run : Run σ) (c : Cardinality) (q : BoundQuery) :
    ExceptT QueryError (StateM (Session σ)) (List Materialized) := do
  let e ← p.execute q
  ExceptT.mk (e.take p.construct run c)

/-- All results of a query that holds queries no deeper than `depth` in one another. -/
def listAt : Nat → Run σ
  | 0 => p.collect (fun _ => throw Surroundings.mismatch) .many
  | depth + 1 => p.collect (listAt depth) .many

/-- How the queries nested in `q` are run. -/
def runNested (q : BoundQuery) : Run σ := p.listAt (q.depth - 1)

/-- The next result of a running query. -/
def next (q : BoundQuery) : Pull (StateM (Session σ)) Enumerator Materialized :=
  Enumerator.next p.construct (p.runNested q)

def executeWith (c : Cardinality) (q : BoundQuery) :
    ExceptT QueryError (StateM (Session σ)) (List Materialized) :=
  p.collect (p.runNested q) c q

def list (q : BoundQuery) : ExceptT QueryError (StateM (Session σ)) (List Materialized) :=
  p.executeWith .many q

/-- The one result a cardinality leaves when it does not leave none. -/
def one : List Materialized → Except QueryError Materialized
  | [] => .error .noRows
  | m :: _ => .ok m

def first (q : BoundQuery) : ExceptT QueryError (StateM (Session σ)) Materialized := do
  ExceptT.mk (pure (one (← p.executeWith .first q)))

def firstOrDefault (q : BoundQuery) : ExceptT QueryError (StateM (Session σ)) (Option Materialized) :=
  return (← p.executeWith .firstOrDefault q).head?

def single (q : BoundQuery) : ExceptT QueryError (StateM (Session σ)) Materialized := do
  ExceptT.mk (pure (one (← p.executeWith .single q)))

def singleOrDefault (q : BoundQuery) : ExceptT QueryError (StateM (Session σ)) (Option Materialized) :=
  return (← p.executeWith .singleOrDefault q).head?

/-- The value a query comes to, read as its element type if it has one. -/
def scalar (q : BoundQuery) : ExceptT QueryError (StateM (Session σ)) Value := do
  let prepared ← p.prepare q
  let value ← Session.onChannel (Channel.scalar p.database prepared.command)
  match q.elementType with
  | .void | .unknown => return value
  | type => ExceptT.mk (pure (value.readAs type))

end Provider

end QueryTree
