import QueryTree.Json.Basic

/-! Tables of a TOML document, as they are put together line by line.

A table comes about in one of three ways, and each may be done only once: it is stated by a header, passed
through by a longer header, or spelled by a dotted key. A header may state a table that was only passed
through. Dotted keys may add to tables that dotted keys spelled, and to no others. A value is closed.
-/

set_option autoImplicit false

namespace QueryTree.Toml

inductive Origin where
  | stated
  | passed
  | dotted
  deriving DecidableEq, Repr, Inhabited

inductive Tree where
  | value (json : Json)
  | table (origin : Origin) (members : List (String × Tree))
  /-- An array of tables; lines go to the last of them. -/
  | tables (items : List (List (String × Tree)))
  deriving Inhabited

abbrev Tables := List (String × Tree)

namespace Tables

def find? (m : Tables) (key : String) : Option Tree := (List.find? (·.1 == key) m).map (·.2)

def replace (m : Tables) (key : String) (tree : Tree) : Tables :=
  m.map fun (name, old) => if name == key then (name, tree) else (name, old)

/-- Change the table at a path, which the keys of a header or of a dotted key lead to. -/
def at? (dotted : Bool) (change : Origin → Tables → Option Tables) :
    List String → Origin → Tables → Option Tables
  | [], origin, m => change origin m
  | key :: path, _, m =>
    match m.find? key with
    | none => do
      let origin := if dotted then .dotted else .passed
      return m ++ [(key, .table origin (← at? dotted change path origin []))]
    | some (.value _) => none
    | some (.table origin inner) =>
      if dotted && origin = .stated then none
      else (at? dotted change path origin inner).map fun inner => m.replace key (.table origin inner)
    | some (.tables items) => do
      let last ← items.getLast?
      return m.replace key (.tables (items.dropLast ++ [← at? dotted change path .stated last]))

/-- A value in a table; the table of a dotted key must be spelled by dotted keys only. -/
def assign? (path : List String) (key : String) (json : Json) : Origin → Tables → Option Tables :=
  at? true (fun origin m =>
    if (origin = .dotted) = path.isEmpty || (m.find? key).isSome then none
    else some (m ++ [(key, .value json)])) path

/-- State a table that is new or was only passed through. -/
def state? (path : List String) (key : String) : Tables → Option Tables :=
  at? false (fun _ m =>
    match m.find? key with
    | none => some (m ++ [(key, .table .stated [])])
    | some (.table .passed inner) => some (m.replace key (.table .stated inner))
    | some _ => none) path .stated

/-- State one more table of an array. -/
def stateItem? (path : List String) (key : String) : Tables → Option Tables :=
  at? false (fun _ m =>
    match m.find? key with
    | none => some (m ++ [(key, .tables [[]])])
    | some (.tables items) => some (m.replace key (.tables (items ++ [[]])))
    | some _ => none) path .stated

end Tables

namespace Tree

mutual

def toJson : Tree → Json
  | .value json => json
  | .table _ members => .object (membersJson members)
  | .tables items => .array (itemsJson items)

def membersJson : List (String × Tree) → List (String × Json)
  | [] => []
  | (key, tree) :: rest => (key, toJson tree) :: membersJson rest

def itemsJson : List (List (String × Tree)) → List Json
  | [] => []
  | members :: rest => .object (membersJson members) :: itemsJson rest

end

end Tree

end QueryTree.Toml
