import QueryTree.Node.Build

/-! What holds of a tree part by part.

Of an operator, many properties hold as soon as they hold of its operands, and a pass that builds operators from such
operands keeps them all.
-/

set_option autoImplicit false

namespace QueryTree

/-! ### Subtrees -/

namespace Node

theorem self_mem_subtrees (n : Node) : n ∈ n.subtrees := by
  obtain ⟨s⟩ := n
  rw [subtrees_mk]
  exact List.mem_cons_self

theorem constant_some {n : Node} {v : Value} (literal : n.constant? = some v) : ∃ type, n = .constant v type := by
  obtain ⟨s⟩ := n
  cases s with
  | constant value type =>
    cases literal
    exact ⟨type, rfl⟩
  | _ => cases literal

theorem column_some {n : Node} {c : Column} (reference : n.column? = some c) : n = .column c := by
  obtain ⟨s⟩ := n
  cases s with
  | column d =>
    cases reference
    rfl
  | _ => cases reference

theorem mem_subtrees_of_child {s : Shape Node} {c m : Node} (child : c ∈ s.children) (member : m ∈ c.subtrees) :
    m ∈ (Node.mk s).subtrees := by
  rw [subtrees_mk]
  exact List.mem_cons_of_mem _ (List.mem_flatMap.mpr ⟨c, child, member⟩)

/-- What goes from a node to its children goes to all that is in it. -/
theorem inherited {P : Node → Prop} (down : ∀ s : Shape Node, P (.mk s) → ∀ c ∈ s.children, P c) {n m : Node}
    (whole : P n) (member : m ∈ n.subtrees) : P m := by
  induction n using inductNode with
  | step s ih =>
    rw [subtrees_mk] at member
    rcases List.mem_cons.mp member with rfl | below
    · exact whole
    · obtain ⟨c, child, below⟩ := List.mem_flatMap.mp below
      exact ih c child (down s whole c child) below

end Node

/-! ### Layers -/

/-- All of a layer but its children. -/
def Shape.bare {α : Type} (s : Shape α) : Shape Unit := s.map fun _ => ()

theorem Shape.bare_map {α β : Type} (f : α → β) (s : Shape α) : (s.map f).bare = s.bare := map_map _ f s

namespace Node

/-- Every layer of the tree is as it should be, its children aside. -/
def every (fine : Shape Unit → Bool) : Node → Bool := fold fun s => fine s.bare && s.children.all id

theorem every_mk {fine : Shape Unit → Bool} {s : Shape Node} :
    (Node.mk s).every fine = true ↔ fine s.bare = true ∧ ∀ c ∈ s.children, c.every fine = true := by
  unfold every
  rw [fold_mk, Shape.bare_map, Shape.children_map, List.all_map, Bool.and_eq_true, List.all_eq_true]
  rfl

end Node

/-! ### The parts of a select -/

namespace Select

variable {α β : Type} {q : Select α} {c : α}

/-- What a select holds beside its columns and its source. -/
def clauses (q : Select α) : List α :=
  q.filter.toList ++ q.groupBy ++ q.orderBy.map (·.expr) ++ q.skip.toList ++ q.take.toList

theorem mem_children : c ∈ q.children ↔ (∃ b ∈ q.columns, b.expr = c) ∨ c ∈ q.source ∨ c ∈ q.clauses := by
  simp only [children, clauses, List.mem_append, List.mem_map, Option.mem_toList, Option.mem_def, or_assoc]

theorem forall_children {P : α → Prop} : (∀ c ∈ q.children, P c) ↔ (∀ b ∈ q.columns, P b.expr) ∧ (∀ s ∈ q.source, P s) ∧
    (∀ f ∈ q.filter, P f) ∧ (∀ g ∈ q.groupBy, P g) ∧ (∀ o ∈ q.orderBy, P o.expr) ∧ (∀ n ∈ q.skip, P n) ∧
    ∀ n ∈ q.take, P n := by
  simp only [children, List.forall_mem_append, List.forall_mem_map, Option.mem_toList, Option.mem_def, and_assoc]

theorem forall_beside {P : α → Prop} : (∀ c ∈ q.source.toList ++ q.clauses, P c) ↔
    (∀ s ∈ q.source, P s) ∧ (∀ f ∈ q.filter, P f) ∧ (∀ g ∈ q.groupBy, P g) ∧ (∀ o ∈ q.orderBy, P o.expr) ∧
      (∀ n ∈ q.skip, P n) ∧ ∀ n ∈ q.take, P n := by
  simp only [clauses, List.forall_mem_append, List.forall_mem_map, Option.mem_toList, Option.mem_def, and_assoc]

theorem column_child {b : Binding α} (column : b ∈ q.columns) : b.expr ∈ q.children :=
  mem_children.mpr (.inl ⟨b, column, rfl⟩)

theorem source_child (source : c ∈ q.source) : c ∈ q.children := mem_children.mpr (.inr (.inl source))

theorem clause_child (clause : c ∈ q.clauses) : c ∈ q.children := mem_children.mpr (.inr (.inr clause))

theorem filter_child (filter : c ∈ q.filter) : c ∈ q.children := clause_child (by simp_all [clauses])

theorem group_child (group : c ∈ q.groupBy) : c ∈ q.children := clause_child (by simp [clauses, group])

theorem order_child {o : OrderItem α} (order : o ∈ q.orderBy) : o.expr ∈ q.children :=
  clause_child (by simp only [clauses, List.mem_append, List.mem_map]; exact .inl (.inl (.inr ⟨o, order, rfl⟩)))

theorem children_map (q : Select α) (f : α → β) : (q.map f).children = q.children.map f :=
  Shape.children_map f (.select q)

theorem names_map (q : Select α) (f : α → β) : (q.map f).columns.map (·.name) = q.columns.map (·.name) := by
  simp only [Select.map, List.map_map]
  rfl

theorem projectsStar_names {α β : Type} {p : Select α} {q : Select β}
    (same : p.columns.map (·.name) = q.columns.map (·.name)) : p.projectsStar = q.projectsStar := by
  have wildcards {γ : Type} (s : Select γ) :
      s.columns.any (·.isWildcard) = (s.columns.map (·.name)).any (· == Node.wildcard) := by
    rw [List.any_map]
    rfl
  have empties {γ : Type} (s : Select γ) : s.columns.isEmpty = (s.columns.map (·.name)).isEmpty := by simp
  unfold projectsStar
  rw [wildcards p, wildcards q, empties p, empties q, same]

theorem projectsStar_all (wild : q.columns.all (·.isWildcard) = true) :
    q.projectsStar = true := by
  unfold projectsStar
  cases columns : q.columns with
  | nil => rfl
  | cons b rest => simp_all

end Select

/-! ### Part by part -/

theorem Shape.forall_conditional {α : Type} {P : α → Prop} {branches : List (Branch α)} {otherwise : Option α}
    {type : DataType} : (∀ a ∈ (Shape.conditional branches otherwise type).children, P a) ↔
      (∀ b ∈ branches, P b.condition ∧ P b.result) ∧ ∀ a ∈ otherwise, P a := by
  simp only [Shape.children, List.forall_mem_append, List.forall_mem_flatMap, Branch.children, List.forall_mem_cons,
    Option.mem_toList, Option.mem_def]
  simp

theorem Node.joinAll_holds {P : Node → Prop} {op : BinaryOp} (step : ∀ {a b : Node}, P a → P b → P (.ofBinary op a b))
    {ns : List Node} (each : ∀ n ∈ ns, P n) : ∀ n ∈ joinAll op ns, P n := by
  intro n joined
  cases ns with
  | nil => cases joined
  | cons first rest =>
    cases joined
    apply List.foldlRecOn (motive := P) rest
    · exact each first (by simp)
    · exact fun a holds b member => step holds (each b (by simp [member]))

/-- An operator over its operands: neither declares a label nor refers to one, and stands for no rows. -/
def Shape.isOrdinary {α : Type} : Shape α → Bool
  | .call .. | .constant .. | .binary .. | .unary .. | .conditional .. | .tuple _ | .object .. => true
  | _ => false

/-- Holds of an operator when it holds of the operands. -/
def PartByPart (P : Node → Prop) : Prop :=
  ∀ s : Shape Node, s.isOrdinary = true → (P (.mk s) ↔ ∀ c ∈ s.children, P c)

namespace PartByPart

variable {P : Node → Prop}

theorem constant (parts : PartByPart P) (value : Value) (type : DataType) : P (.constant value type) :=
  (parts _ rfl).mpr fun _ member => absurd member List.not_mem_nil

theorem binary (parts : PartByPart P) {op : BinaryOp} {left right : Node} {type : DataType} :
    P (.binary op left right type) ↔ P left ∧ P right := by
  rw [parts _ rfl]
  simp [Shape.children]

theorem unary (parts : PartByPart P) {op : UnaryOp} {operand : Node} {type : DataType} :
    P (.unary op operand type) ↔ P operand := by
  rw [parts _ rfl]
  simp [Shape.children]

theorem call (parts : PartByPart P) {routine : Routine} {arguments : List Node} {type : DataType} :
    P (.call routine arguments type) ↔ ∀ c ∈ arguments, P c := parts _ rfl

theorem tuple (parts : PartByPart P) {elements : List Node} : P (.tuple elements) ↔ ∀ c ∈ elements, P c := parts _ rfl

theorem object (parts : PartByPart P) {entity : String} {keys : List (Binding Node)} :
    P (.object entity keys) ↔ ∀ k ∈ keys, P k.expr := by
  rw [parts _ rfl]
  simp [Shape.children]

theorem conditional (parts : PartByPart P) {branches : List (Branch Node)} {otherwise : Option Node} {type : DataType} :
    P (.conditional branches otherwise type) ↔
      (∀ b ∈ branches, P b.condition ∧ P b.result) ∧ ∀ n ∈ otherwise, P n :=
  (parts _ rfl).trans Shape.forall_conditional

end PartByPart

end QueryTree
