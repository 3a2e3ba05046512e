import QueryTree.Proofs.Amend.Settling
import QueryTree.Proofs.Command.Sequences

/-! Amending the statements of a batch.

A batch lists statements, and lists of them, to any depth, and is what its statements are in order. Allowing identity
values and leaving out enumerations act on one statement after the other, so what a batch becomes is put together from
what its statements become. Whatever allows identity values for a table takes it back before anything else is allowed.
-/

set_option autoImplicit false

namespace QueryTree

/-! ### Batches -/

def Kind.isStatement : Kind → Bool
  | .insert | .update | .delete | .createTable | .alterTable | .createIndex | .enumDefinition | .setCommand
  | .statements => true
  | _ => false

namespace Node

variable {n : Node}

/-- No statement in it. -/
def isStatementless (n : Node) : Bool := n.every fun s => !s.kind.isStatement

/-- Statements stand in lists alone. -/
def IsBatch (n : Node) : Prop := ∀ s ∈ n.sequence, ∀ c ∈ s.shape.children, c.isStatementless = true

instance (n : Node) : Decidable n.IsBatch := inferInstanceAs (Decidable (∀ s ∈ n.sequence, _))

theorem mapUp_statementless {rule : Node → Node} (still : ∀ s : Shape Node, s.kind.isStatement = false → rule (.mk s) = .mk s)
    (without : n.isStatementless = true) : n.mapUp rule = n := by
  apply mapUp_still
  rintro ⟨s⟩ member
  apply still
  simpa using every_subtree without member

end Node

namespace Amend

open Node (sequence sequence_statements sequence_single)

/-! ### Statement by statement -/

/-- Takes a batch one statement after the other. -/
def Sequential (amend : Node → Node) : Prop := ∀ n, (amend n).sequence = n.sequence.flatMap fun s => (amend s).sequence

variable {f g : Node → Node}

theorem Sequential.ofLists
    (each : ∀ list, (f (.statements list)).sequence = list.flatMap fun m => (f m).sequence) : Sequential f := by
  intro n
  induction n using Node.inductNode with
  | step s ih =>
    by_cases single : s.kind = .statements
    · cases s with
      | statements list =>
        rw [each, sequence_statements, List.flatMap_assoc]
        exact List.flatMap_congr fun m listed => ih m listed
      | _ => cases single
    · rw [sequence_single single, List.flatMap_singleton]

theorem Sequential.comp (later : Sequential g) (first : Sequential f) : Sequential fun n => g (f n) := by
  intro n
  calc (g (f n)).sequence
      = (f n).sequence.flatMap fun s => (g s).sequence := later (f n)
    _ = (n.sequence.flatMap fun s => (f s).sequence).flatMap fun s => (g s).sequence := by rw [first n]
    _ = n.sequence.flatMap fun s => (f s).sequence.flatMap fun s => (g s).sequence := List.flatMap_assoc
    _ = n.sequence.flatMap fun s => (g (f s)).sequence := by simp only [later (f _)]

/-- What allowing identity values does to one statement. -/
def allowIdentity : Node → Node
  | .insert i => if i.identityInsert then bracketed i.table (.insert { i with identityInsert := false }) else .insert i
  | .update u => if u.identityInsert then bracketed u.table (.update { u with identityInsert := false }) else .update u
  | n => n

theorem identityBrackets_amend : identityBrackets.amend = Node.mapUp allowIdentity := by
  simp only [identityBrackets]
  apply congrArg
  funext n
  obtain ⟨s⟩ := n
  cases s <;> rfl

theorem identityBrackets_statements (list : List Node) :
    identityBrackets.amend (.statements list) = .statements (list.map identityBrackets.amend) := by
  rw [identityBrackets_amend]
  exact Node.mapUp_mk allowIdentity (.statements list)

theorem identityBrackets_sequential : Sequential identityBrackets.amend := by
  apply Sequential.ofLists
  intro list
  rw [identityBrackets_statements, sequence_statements, List.flatMap_map]

theorem enumDefinitions_statements (list : List Node) : enumDefinitions.amend (.statements list) =
    .statements ((list.map withoutDefinitions).filter fun s => !isEnumDefinition s) := by
  rw [enumDefinitions_amend, if_neg (by rintro ⟨⟩), withoutDefinitions, Node.mapUp_mk]
  rfl

theorem enumDefinitions_sequential : Sequential enumDefinitions.amend := by
  apply Sequential.ofLists
  intro list
  rw [enumDefinitions_statements, sequence_statements]
  induction list with
  | nil => rfl
  | cons m rest ih =>
    rw [List.map_cons, List.filter_cons, List.flatMap_cons, ← ih, withoutDefinitions_definition, enumDefinitions_amend]
    -- A definition is taken from the list that holds it, and alone it becomes the empty list.
    cases isEnumDefinition m with
    | true => rfl
    | false => rfl

/-! ### One statement -/

/-- A statement before which identity values are allowed for a table, and behind which they no longer are. -/
def whileAllowed (owner : String) (statement : Node) : List Node :=
  [.setCommand "IDENTITY_INSERT" [.literal (.text owner), .literal (.bool true)], statement,
    .setCommand "IDENTITY_INSERT" [.literal (.text owner), .literal (.bool false)]]

/-- What one statement becomes in a batch. -/
def amended : Node → List Node
  | .enumDefinition .. => []
  | .insert i =>
    if i.identityInsert then whileAllowed i.table (.insert { i with identityInsert := false }) else [.insert i]
  | .update u =>
    if u.identityInsert then whileAllowed u.table (.update { u with identityInsert := false }) else [.update u]
  | n => [n]

variable {s : Shape Node}

theorem identityBrackets_single (without : ∀ c ∈ s.children, c.isStatementless = true) :
    identityBrackets.amend (.mk s) = allowIdentity (.mk s) := by
  have still (t : Shape Node) (other : t.kind.isStatement = false) : allowIdentity (.mk t) = .mk t := by
    cases t <;> first | rfl | cases other
  rw [identityBrackets_amend, Node.mapUp_mk,
    Shape.map_still fun c child => Node.mapUp_statementless still (without c child)]

theorem enumDefinitions_single (single : s.kind ≠ .statements) (other : s.kind ≠ .enumDefinition)
    (without : ∀ c ∈ s.children, c.isStatementless = true) : enumDefinitions.amend (.mk s) = .mk s := by
  have below : s.map withoutDefinitions = s := by
    refine Shape.map_still fun c child => Node.mapUp_statementless (fun t other => ?_) (without c child)
    cases t <;> first | rfl | cases other
  rw [enumDefinitions_amend]
  unfold withoutDefinitions at below ⊢
  rw [Node.mapUp_mk, below]
  cases s <;> first | rfl | exact absurd rfl single | exact absurd rfl other

theorem identityInsert_single (owner : String) (on : Bool) :
    enumDefinitions.amend (identityInsert owner on) = identityInsert owner on := by
  apply enumDefinitions_single (s := .setCommand ..) nofun nofun
  intro c child
  rcases List.mem_pair.mp child with rfl | rfl <;> rfl

theorem bracketed_sequence (owner : String) (single : s.kind ≠ .statements) (other : s.kind ≠ .enumDefinition)
    (without : ∀ c ∈ s.children, c.isStatementless = true) :
    (enumDefinitions.amend (bracketed owner (.mk s))).sequence = whileAllowed owner (.mk s) := by
  have command (on : Bool) : (identityInsert owner on).sequence = [identityInsert owner on] :=
    sequence_single (s := .setCommand ..) nofun
  have listed : (bracketed owner (.mk s)).sequence =
      [identityInsert owner true, .mk s, identityInsert owner false] := by
    rw [bracketed, sequence_statements]
    simp [command, sequence_single single]
  rw [enumDefinitions_sequential, listed]
  show _ = [identityInsert owner true, .mk s, identityInsert owner false]
  simp [identityInsert_single, enumDefinitions_single single other without, command, sequence_single single]

theorem amended_sequence (single : s.kind ≠ .statements) (without : ∀ c ∈ s.children, c.isStatementless = true) :
    (enumDefinitions.amend (identityBrackets.amend (.mk s))).sequence = amended (.mk s) := by
  have kept (other : s.kind ≠ .enumDefinition) : (enumDefinitions.amend (.mk s)).sequence = [.mk s] := by
    rw [enumDefinitions_single single other without, sequence_single single]
  rw [identityBrackets_single without]
  -- Definitions are left out after identity values are allowed, so the commands around a statement pass them as well.
  cases s with
  | statements list => exact absurd rfl single
  | enumDefinition name labels => rfl
  | insert i =>
    simp only [allowIdentity, amended]
    split
    · exact bracketed_sequence i.table (s := .insert { i with identityInsert := false }) nofun nofun without
    · exact kept nofun
  | update u =>
    simp only [allowIdentity, amended]
    split
    · exact bracketed_sequence u.table (s := .update { u with identityInsert := false }) nofun nofun without
    · exact kept nofun
  | _ => exact kept nofun

/-! ### Identity values allowed -/

/-- Names of commands are read in either case. -/
def isIdentityInsert (name : String) : Bool := name.toList.map Char.toUpper == "IDENTITY_INSERT".toList

/-- The table for which a statement allows identity values, or takes it back. -/
def switch? : Node → Option (String × Bool)
  | .setCommand name [owner, on] =>
    if isIdentityInsert name then
      match owner.constant?, on.constant? with
      | some (.text owner), some (.bool on) => some (owner, on)
      | _, _ => none
    else none
  | _ => none

theorem switch_set (owner : String) (on : Bool) :
    switch? (.setCommand "IDENTITY_INSERT" [.literal (.text owner), .literal (.bool on)]) = some (owner, on) := rfl

/-- The tables with identity values allowed, after one more statement. -/
def turned (tables : List String) (statement : Node) : List String :=
  match switch? statement with
  | some (owner, true) => tables.insert owner
  | some (owner, false) => tables.filter (· ≠ owner)
  | none => tables

def tablesOn (run : List Node) : List String := run.foldl turned []

/-- Is a command about identity values. -/
def isSwitch : Node → Bool
  | .setCommand name _ => isIdentityInsert name
  | _ => false

/-- Identity values are allowed for one table at a time, and in the end for none. -/
structure Balanced (run : List Node) : Prop where
  alone : ∀ before, before <+: run → (tablesOn before).length ≤ 1
  released : tablesOn run = []

theorem balanced_nil : Balanced [] where
  alone before start := by simp [List.prefix_nil.mp start, tablesOn]
  released := rfl

theorem Balanced.append {first second : List Node} (left : Balanced first) (right : Balanced second) :
    Balanced (first ++ second) := by
  have after (run : List Node) : tablesOn (first ++ run) = tablesOn run := by
    have released := left.released
    unfold tablesOn at released ⊢
    rw [List.foldl_append, released]
  constructor
  · intro before start
    -- Nothing is on when the second run starts, so it goes as it does by itself.
    obtain within | ⟨within, same⟩ := List.prefix_or_prefix_of_prefix start (List.prefix_append first second)
    · exact left.alone before within
    · subst same
      rw [after]
      exact right.alone within ((List.prefix_append_right_inj first).mp start)
  · rw [after]
    exact right.released

theorem balanced_flatMap {f : Node → List Node} {run : List Node} (each : ∀ s ∈ run, Balanced (f s)) :
    Balanced (run.flatMap f) := by
  induction run with
  | nil => exact balanced_nil
  | cons s rest ih =>
    rw [List.flatMap_cons]
    obtain ⟨first, later⟩ := List.forall_mem_cons.mp each
    exact first.append (ih later)

theorem turned_none {n : Node} (none : switch? n = none) (tables : List String) : turned tables n = tables := by
  rw [turned, none]

theorem balanced_single {n : Node} (none : switch? n = none) : Balanced [n] := by
  have still : tablesOn [n] = [] := turned_none none []
  constructor
  · intro before start
    rcases List.prefix_cons_iff.mp start with rfl | ⟨rest, rfl, later⟩
    · simp [tablesOn]
    · rw [List.prefix_nil.mp later, still]
      exact Nat.zero_le 1
  · exact still

theorem balanced_whileAllowed (owner : String) {n : Node} (none : switch? n = none) :
    Balanced (whileAllowed owner n) := by
  let set (on : Bool) : Node := .setCommand "IDENTITY_INSERT" [.literal (.text owner), .literal (.bool on)]
  have allowed : tablesOn [set true] = [owner] := by
    show turned [] (set true) = [owner]
    rw [turned, switch_set]
    rfl
  have during : tablesOn [set true, n] = [owner] := by
    show turned (tablesOn [set true]) n = [owner]
    rw [turned_none none, allowed]
  have released : tablesOn [set true, n, set false] = [] := by
    show turned (tablesOn [set true, n]) (set false) = []
    rw [during, turned, switch_set]
    simp
  constructor
  · intro before start
    rcases List.prefix_cons_iff.mp start with rfl | ⟨rest, rfl, second⟩
    · simp [tablesOn]
    rcases List.prefix_cons_iff.mp second with rfl | ⟨rest, rfl, third⟩
    · rw [allowed]
      exact Nat.le_refl 1
    rcases List.prefix_cons_iff.mp third with rfl | ⟨rest, rfl, none⟩
    · rw [during]
      exact Nat.le_refl 1
    · rw [List.prefix_nil.mp none, released]
      exact Nat.zero_le 1
  · exact released

theorem switch_none {n : Node} (other : isSwitch n = false) : switch? n = none := by
  unfold switch?
  split
  · rename_i name owner on
    have named : isIdentityInsert name = false := other
    rw [named]
    rfl
  · rfl

theorem amended_balanced {n : Node} (other : isSwitch n = false) : Balanced (amended n) := by
  unfold amended
  split
  · exact balanced_nil
  · split
    · exact balanced_whileAllowed _ rfl
    · exact balanced_single rfl
  · split
    · exact balanced_whileAllowed _ rfl
    · exact balanced_single rfl
  · exact balanced_single (switch_none other)

/-! ### Batches -/

theorem batch_sequence {n : Node} (batch : n.IsBatch) :
    (enumDefinitions.amend (identityBrackets.amend n)).sequence = n.sequence.flatMap amended := by
  rw [enumDefinitions_sequential.comp identityBrackets_sequential n]
  apply List.flatMap_congr
  rintro ⟨s⟩ member
  exact amended_sequence (Node.single_of_mem member) (batch _ member)

theorem batch_text (d : Dialect) (p : Place) {list : List Node} (batch : (Node.statements list).IsBatch) :
    (d.spell (enumDefinitions.amend (identityBrackets.amend (.statements list)))).statement p = do
      let texts ← ((list.flatMap sequence).flatMap amended).mapM fun s => (d.spell s).statement p
      return .joined "; " (Wording.written texts) := by
  have listed : (enumDefinitions.amend (identityBrackets.amend (.statements list))).kind = .statements := by
    rw [identityBrackets_statements, enumDefinitions_statements]
    rfl
  rw [d.statement_sequence p listed, batch_sequence batch, sequence_statements]

/-- A batch is amended statement by statement and, where no command of its own is about identity values, allows them
for one table at a time. -/
theorem batch_amended {n : Node} (batch : n.IsBatch) :
    (enumDefinitions.amend (identityBrackets.amend n)).sequence = n.sequence.flatMap amended ∧
      ((∀ s ∈ n.sequence, isSwitch s = false) →
        Balanced (enumDefinitions.amend (identityBrackets.amend n)).sequence) := by
  refine ⟨batch_sequence batch, fun others => ?_⟩
  rw [batch_sequence batch]
  exact balanced_flatMap fun s member => amended_balanced (others s member)

theorem batch_amended_nested :
    let row (table : String) (identityInsert : Bool) : Node :=
      .insert { table, columns := ["id"], values := [.literal (.int64 7)], identityInsert }
    let renumbered (identityInsert : Bool) : Node :=
      .update { table := "orders", assignments := [⟨"id", .literal (.int64 1)⟩], identityInsert }
    let set (table : String) (on : Bool) : Node :=
      .setCommand "IDENTITY_INSERT" [.literal (.text table), .literal (.bool on)]
    let batch : Node := .statements
      [.enumDefinition "mood" ["happy", "sad"], .statements [row "users" true, .statements [row "logs" false]],
        renumbered true]
    batch.IsBatch ∧ (∀ s ∈ batch.sequence, isSwitch s = false) ∧
      (enumDefinitions.amend (identityBrackets.amend batch)).sequence =
        [set "users" true, row "users" false, set "users" false, row "logs" false, set "orders" true, renumbered false,
          set "orders" false] ∧
      Balanced (enumDefinitions.amend (identityBrackets.amend batch)).sequence := by
  intro row renumbered set batch
  have isBatch : batch.IsBatch := by decide +kernel
  have others : ∀ s ∈ batch.sequence, isSwitch s = false := by decide +kernel
  obtain ⟨amends, balanced⟩ := batch_amended isBatch
  refine ⟨isBatch, others, amends.trans ?_, balanced others⟩
  decide +kernel

end Amend

end QueryTree
