import QueryTree.Proofs.Node.Labels

/-! The types of the parts of a tree.

A typing says what the columns of each label are typed, nulls aside. A tree has the typing when references and declared
columns have the types it says, and operators are typed as their operands make them: what becomes of an operator whose
operands are known is then of the type the operator had. Nodes that are of the same types may stand for each other.
-/

set_option autoImplicit false

namespace QueryTree

/-- The types of the columns of each label, nulls aside. -/
abbrev Typing := String → String → DataType

theorem Value.underlying_dataType (v : Value) : v.dataType.underlying = v.dataType := by
  cases v <;> rfl

namespace Node

/-- Is one value: neither rows to read from nor several values. -/
def isSingle : Node → Bool
  | .table .. | .select _ | .join .. | .tuple _ => false
  | _ => true

/-- Is one value of the type; a literal that is not null is so by its value. -/
structure IsOf (type : DataType) (n : Node) : Prop where
  single : n.isSingle = true
  declared : n.dataType.underlying = type
  value : ∀ v ∈ n.constant?, v.isNull = false → v.dataType = type

end Node

open Node

/-- What a select declares is of the types of its columns. One that exposes its source names no column, and its columns
are typed like those of the source. -/
structure Select.Typed (Γ : Typing) (q : Select Node) : Prop where
  names : (q.columns.map (·.name)).Nodup
  exposes : q.projectsStar = true →
    (∀ b ∈ q.columns, b.isWildcard = true) ∧ ∀ label ∈ q.source.bind sourceLabel?, Γ q.label = Γ label
  columns : ∀ b ∈ q.columns, b.isWildcard = false → b.expr.IsOf (Γ q.label b.name)
  filter : ∀ f ∈ q.filter, f.IsOf .boolean

/-- Arithmetic on operands of one type is of that type; all else is a test. -/
def BinaryOp.Typed (op : BinaryOp) (left right : Node) (type : DataType) : Prop :=
  if op.isArithmetic then
    left.IsOf left.dataType.underlying ∧ right.IsOf right.dataType.underlying ∧
      (left.dataType.underlying = right.dataType.underlying → type.underlying = left.dataType.underlying)
  else type.underlying = .boolean ∧ (op.isLogical = true → left.IsOf .boolean ∧ right.IsOf .boolean)

def UnaryOp.Typed (op : UnaryOp) (operand : Node) (type : DataType) : Prop :=
  match op with
  | .negate => operand.IsOf type.underlying
  | .not => type.underlying = .boolean ∧ operand.IsOf .boolean
  | .isNull | .isNotNull => type.underlying = .boolean

/-- A routine whose outcome may be computed, or whose argument may take its place. -/
def Routine.Typed (routine : Routine) (arguments : List Node) (type : DataType) : Prop :=
  match routine with
  | .concat => type.underlying = .text ∧ arguments ≠ [] ∧ ∀ only, arguments = [only] → only.IsOf .text
  | .coalesce | .abs => ∀ a ∈ arguments, a.IsOf type.underlying
  | .upper | .lower | .trim => type.underlying = .text
  | .length => type.underlying = .int32
  | .startsWith | .endsWith | .containsString | .isIn => type.underlying = .boolean
  | _ => True

/-- Aggregates over groups have no place in a typed tree: they become columns that no typing knows. -/
def Shape.Typed (Γ : Typing) : Shape Node → Prop
  | .select q => q.Typed Γ
  | .column c => c.type.underlying = Γ c.label c.name
  | .groupAggregate .. => False
  | .window source _ => source.IsOf source.dataType.underlying
  | .binary op left right type => op.Typed left right type
  | .unary op operand type => op.Typed operand type
  | .call routine arguments type => routine.Typed arguments type
  | .conditional branches otherwise type =>
    (∀ b ∈ branches, b.result.IsOf type.underlying) ∧ ∀ n ∈ otherwise, n.IsOf type.underlying
  | _ => True

namespace Node

variable {Γ : Typing}

def Typed (Γ : Typing) (n : Node) : Prop := ∀ m ∈ n.subtrees, m.shape.Typed Γ

theorem typed_mk {s : Shape Node} : (Node.mk s).Typed Γ ↔ s.Typed Γ ∧ ∀ c ∈ s.children, c.Typed Γ := by
  simp only [Typed, subtrees_mk, List.forall_mem_cons, List.forall_mem_flatMap, shape_mk]

theorem Typed.subtree {n m : Node} (typed : n.Typed Γ) (member : m ∈ n.subtrees) : m.Typed Γ :=
  fun k below => typed k (subtrees_trans member below)

theorem Typed.child {s : Shape Node} {c : Node} (typed : (Node.mk s).Typed Γ) (child : c ∈ s.children) : c.Typed Γ :=
  (typed_mk.mp typed).2 c child

theorem typed_select {q : Select Node} :
    (Node.select q).Typed Γ ↔ q.Typed Γ ∧ ∀ c ∈ q.children, c.Typed Γ := typed_mk

theorem IsOf.unlabelled {type : DataType} {n : Node} (isOf : n.IsOf type) : n.sourceLabel? = none := by
  have single := isOf.single
  obtain ⟨s⟩ := n
  cases s <;> first | rfl | cases single

theorem isOf_constant {type declared : DataType} {v : Value} (same : declared.underlying = type)
    (value : v.isNull = false → v.dataType = type) : (Node.constant v declared).IsOf type :=
  ⟨rfl, same, fun w member given => by
    obtain rfl : v = w := Option.some.inj member
    exact value given⟩

theorem isOf_literal (v : Value) : (Node.literal v).IsOf v.dataType :=
  isOf_constant v.underlying_dataType fun _ => rfl

theorem typed_constant (v : Value) (type : DataType) : (Node.constant v type).Typed Γ :=
  typed_mk.mpr ⟨trivial, fun _ member => absurd member List.not_mem_nil⟩

/-- `b` is of the types that `a` is of, and exposes columns of the same types. -/
structure Serves (Γ : Typing) (a b : Node) : Prop where
  types : ∀ type, a.IsOf type → b.IsOf type
  labels : ∀ label, (∀ l ∈ a.sourceLabel?, Γ label = Γ l) → ∀ l ∈ b.sourceLabel?, Γ label = Γ l

theorem Serves.own {a b : Node} (serves : Serves Γ a b) (isOf : a.IsOf a.dataType.underlying) :
    b.IsOf b.dataType.underlying ∧ b.dataType.underlying = a.dataType.underlying := by
  have same := serves.types _ isOf
  exact ⟨same.declared.symm ▸ same, same.declared⟩

end Node

open Node

/-! ### Layers over other children -/

section Layers

variable {Γ : Typing}

theorem Select.typed_map {q : Select (Node × Node)} (each : ∀ p ∈ q.children, Serves Γ p.1 p.2)
    (typed : (q.map Prod.fst).Typed Γ) : (q.map Prod.snd).Typed Γ := by
  have star : (q.map Prod.snd).projectsStar = (q.map Prod.fst).projectsStar :=
    Select.projectsStar_names (by rw [names_map, names_map])
  refine ⟨?_, fun exposes => ?_, fun b member named => ?_, fun f member => ?_⟩
  · rw [names_map, ← names_map q Prod.fst]
    exact typed.names
  · obtain ⟨wild, source⟩ := typed.exposes (star ▸ exposes)
    refine ⟨fun b member => ?_, fun label member => ?_⟩
    · obtain ⟨c, column, rfl⟩ := List.mem_map.mp member
      exact wild (c.map Prod.fst) (List.mem_map_of_mem column)
    · obtain ⟨s, reads, labelled⟩ := Option.bind_eq_some_iff.mp member
      obtain ⟨p, inside, rfl⟩ := Option.map_eq_some_iff.mp reads
      refine (each p (Select.source_child inside)).labels q.label (fun l here => source l ?_) label labelled
      exact Option.bind_eq_some_iff.mpr ⟨p.1, Option.map_eq_some_iff.mpr ⟨p, inside, rfl⟩, here⟩
  · obtain ⟨c, column, rfl⟩ := List.mem_map.mp member
    exact (each c.expr (Select.column_child column)).types _
      (typed.columns (c.map Prod.fst) (List.mem_map_of_mem column) named)
  · obtain ⟨p, inside, rfl⟩ := Option.map_eq_some_iff.mp member
    exact (each p (Select.filter_child inside)).types _ (typed.filter p.1 (Option.map_eq_some_iff.mpr ⟨p, inside, rfl⟩))

theorem BinaryOp.typed_replace {op : BinaryOp} {left right left' right' : Node} {type : DataType}
    (first : Serves Γ left left') (second : Serves Γ right right') (typed : op.Typed left right type) :
    op.Typed left' right' type := by
  unfold BinaryOp.Typed at typed ⊢
  split at typed
  · obtain ⟨ofLeft, ofRight, same⟩ := typed
    obtain ⟨ofLeft', sameLeft⟩ := first.own ofLeft
    obtain ⟨ofRight', sameRight⟩ := second.own ofRight
    rw [if_pos ‹_›, sameLeft, sameRight]
    exact ⟨sameLeft ▸ ofLeft', sameRight ▸ ofRight', same⟩
  · rw [if_neg ‹_›]
    exact ⟨typed.1, fun logical => ⟨first.types _ (typed.2 logical).1, second.types _ (typed.2 logical).2⟩⟩

theorem UnaryOp.typed_replace {op : UnaryOp} {operand operand' : Node} {type : DataType}
    (serves : Serves Γ operand operand') (typed : op.Typed operand type) : op.Typed operand' type := by
  cases op with
  | negate => exact serves.types _ typed
  | not => exact ⟨typed.1, serves.types _ typed.2⟩
  | isNull | isNotNull => exact typed

theorem Routine.typed_replace {routine : Routine} {arguments : List (Node × Node)} {type : DataType}
    (each : ∀ p ∈ arguments, Serves Γ p.1 p.2) (typed : routine.Typed (arguments.map Prod.fst) type) :
    routine.Typed (arguments.map Prod.snd) type := by
  have all (given : ∀ a ∈ arguments.map Prod.fst, a.IsOf type.underlying) :
      ∀ a ∈ arguments.map Prod.snd, a.IsOf type.underlying := by
    rw [List.forall_mem_map] at given ⊢
    exact fun p member => (each p member).types _ (given p member)
  cases routine with
  | concat =>
    obtain ⟨text, some, single⟩ := typed
    refine ⟨text, by simpa using some, fun only alone => ?_⟩
    obtain ⟨p, rfl, rfl⟩ := List.map_eq_singleton_iff.mp alone
    exact (each p List.mem_cons_self).types _ (single p.1 rfl)
  | coalesce | abs => exact all typed
  | _ => exact typed

/-- A layer stays typed when each child makes place for one that serves. -/
theorem Shape.typed_map {s : Shape (Node × Node)} (each : ∀ p ∈ s.children, Serves Γ p.1 p.2)
    (typed : (s.map Prod.fst).Typed Γ) : (s.map Prod.snd).Typed Γ := by
  cases s with
  | select q => exact Select.typed_map each typed
  | window source orderBy => exact ((each source List.mem_cons_self).own typed).1
  | binary op left right type =>
    exact BinaryOp.typed_replace (each left (by simp [children])) (each right (by simp [children])) typed
  | unary op operand type => exact UnaryOp.typed_replace (each operand (by simp [children])) typed
  | call routine arguments type => exact Routine.typed_replace each typed
  | conditional branches otherwise type =>
    obtain ⟨results, last⟩ := typed
    obtain ⟨onBranches, onLast⟩ := Shape.forall_conditional.mp each
    refine ⟨fun b member => ?_, fun n member => ?_⟩
    · obtain ⟨c, branch, rfl⟩ := List.mem_map.mp member
      exact (onBranches c branch).2.types _ (results (c.map Prod.fst) (List.mem_map_of_mem branch))
    · obtain ⟨p, inside, rfl⟩ := Option.map_eq_some_iff.mp member
      exact (onLast p inside).types _ (last p.1 (Option.map_eq_some_iff.mpr ⟨p, inside, rfl⟩))
  | _ => exact typed

theorem Shape.isOf_map {s : Shape (Node × Node)} (each : ∀ p ∈ s.children, Serves Γ p.1 p.2)
    (typed : (s.map Prod.fst).Typed Γ) {type : DataType} (isOf : (Node.mk (s.map Prod.fst)).IsOf type) :
    (Node.mk (s.map Prod.snd)).IsOf type := by
  obtain ⟨single, declared, value⟩ := isOf
  cases s with
  | window source orderBy =>
    refine ⟨rfl, ?_, fun v member => nomatch member⟩
    exact ((each source List.mem_cons_self).own typed).2.trans declared
  | table | select | join | tuple => cases single
  | _ => exact ⟨single, declared, value⟩

end Layers

end QueryTree
