import Mathlib.Algebra.Order.BigOperators.Group.List
import Mathlib.Algebra.Order.Ring.Nat
import Mathlib.Tactic.Linarith
import QueryTree.Proofs.Node.Labels

/-! How heavy a tree is.

A pass may make a tree larger: it writes the expression of a column wherever the column was referred to, compares the
keys of entities part by part, and has a group select compute what another one asks of it. The weight is chosen so that
all this makes a tree lighter. A reference weighs more than whatever its label may stand for, which `ω` tells; the operands
of a comparison are factors, since each part of the one may be compared with each of the other; and what a select holds
is in the exponent, where it outweighs the columns that may be moved to its source.
-/

set_option autoImplicit false

namespace QueryTree

mutual

/-- Only lists are written out, item by item. -/
def Value.size : Value → Nat
  | .list items => 1 + Value.sizes items
  | _ => 0

def Value.sizes : List Value → Nat
  | [] => 0
  | v :: rest => 1 + v.size + Value.sizes rest

end

theorem Value.sizes_eq (items : List Value) : Value.sizes items = (items.map fun v => 1 + v.size).sum := by
  induction items with
  | nil => rfl
  | cons v rest ih => rw [sizes, ih, List.map_cons, List.sum_cons]

/-- What children weigh together, each of them one more than alone. -/
def load (weights : List Nat) : Nat := (weights.map (1 + ·)).sum

@[simp] theorem load_nil : load [] = 0 := rfl

@[simp] theorem load_cons (w : Nat) (rest : List Nat) : load (w :: rest) = 1 + w + load rest := rfl

@[simp] theorem load_append (first second : List Nat) : load (first ++ second) = load first + load second := by
  simp [load]

theorem load_eq (weights : List Nat) : load weights = weights.sum + weights.length := by
  induction weights with
  | nil => rfl
  | cons w rest ih =>
    rw [load_cons, ih, List.sum_cons, List.length_cons]
    omega

theorem load_mem {weights : List Nat} {w : Nat} (member : w ∈ weights) : 1 + w ≤ load weights :=
  List.le_sum_of_mem (List.mem_map_of_mem (f := (1 + ·)) member)

theorem load_sublist {first second : List Nat} (sublist : first.Sublist second) : load first ≤ load second := by
  rw [load_eq, load_eq]
  exact Nat.add_le_add (sublist.sum_le_sum fun _ _ => Nat.zero_le _) sublist.length_le

theorem load_fewer {first second : List Nat} (sublist : first.Sublist second) (fewer : first.length < second.length) :
    load first < load second := by
  rw [load_eq, load_eq]
  exact Nat.add_lt_add_of_le_of_lt (sublist.sum_le_sum fun _ _ => Nat.zero_le _) fewer

theorem flatMap_lighter {α : Type} {f : α → List α} {w : α → Nat} {l : List α}
    (each : ∀ a ∈ l, f a = [a] ∨ load ((f a).map w) < 1 + w a) :
    l.flatMap f = l ∨ load ((l.flatMap f).map w) < load (l.map w) := by
  induction l with
  | nil => exact .inl rfl
  | cons a rest ih =>
    have later := ih fun b member => each b (List.mem_cons_of_mem _ member)
    rw [List.flatMap_cons, List.map_append, load_append, List.map_cons, load_cons]
    rcases each a List.mem_cons_self with same | less
    · rw [same]
      exact later.imp (congrArg (a :: ·)) fun less => Nat.add_lt_add_left less _
    · refine .inr (Nat.add_lt_add_of_lt_of_le less ?_)
      exact later.elim (fun same => by rw [same]) Nat.le_of_lt

/-! ### Layers -/

def Select.held {α : Type} (q : Select α) : List α := q.columns.map (·.expr) ++ q.clauses

theorem Select.held_map {α β : Type} (f : α → β) (q : Select α) : (q.map f).held = q.held.map f := by
  simp [held, clauses, Select.map, Binding.map, OrderItem.map, Function.comp_def, Shape.toList_map]

theorem Select.children_perm {α : Type} (q : Select α) : q.children.Perm (q.source.toList ++ q.held) := by
  simp only [children, held, clauses, List.append_assoc]
  exact List.perm_append_comm_assoc _ _ _

namespace Shape

variable {ω : String → Nat}

/-- What a layer weighs, by the weights of its children. -/
def weight (ω : String → Nat) : Shape Nat → Nat
  | .table _ label _ => ω label + 1
  | .column c => ω c.label + 1
  | .constant value _ => value.size
  | .select q => ω q.label + (1 + q.source.getD 0) * 2 ^ (2 + load q.held)
  | .groupAggregate label inGroup asQuery _ => ω label + 3 + inGroup + asQuery
  | .binary op left right _ => if op.isLogical then 3 + left + right else 5 * ((1 + left) * (1 + right))
  | .call routine arguments _ =>
    if routine = .isIn then 5 * ((1 + arguments.headD 0) * (1 + load arguments.tail)) else 1 + load arguments
  | s => 1 + load s.children

theorem mul_expands {a b a' b' : Nat} (first : a' ≤ a) (second : b' ≤ b) :
    (1 + a') * (1 + b') + (a + b) ≤ (1 + a) * (1 + b) + (a' + b') := by
  have product : a' * b' ≤ a * b := Nat.mul_le_mul first second
  linarith [Nat.add_mul 1 a' (1 + b'), Nat.add_mul 1 a (1 + b), Nat.mul_add a' 1 b', Nat.mul_add a 1 b]

theorem pow_expands {a b a' b' : Nat} (first : a' ≤ a) (second : b' ≤ b) :
    (1 + a') * 2 ^ b' + (a + b) ≤ (1 + a) * 2 ^ b + (a' + b') := by
  obtain ⟨d, rfl⟩ := Nat.exists_eq_add_of_le first
  obtain ⟨k, rfl⟩ := Nat.exists_eq_add_of_le second
  have one : 1 ≤ 2 ^ b' := Nat.one_le_two_pow
  have more : k + 1 ≤ 2 ^ k := Nat.lt_two_pow_self
  have grown : 2 ^ b' + k ≤ 2 ^ (b' + k) := by
    rw [Nat.pow_add]
    nlinarith
  have whole : (1 + a' + d) * 2 ^ (b' + k) = (1 + a') * 2 ^ (b' + k) + d * 2 ^ (b' + k) := Nat.add_mul _ _ _
  rw [← Nat.add_assoc 1 a' d, whole]
  nlinarith

/-- A layer gets heavier by as much at least as its children do. -/
theorem weight_expands {s : Shape (Nat × Nat)} (lighter : ∀ p ∈ s.children, p.2 ≤ p.1) :
    (s.map Prod.snd).weight ω + (s.children.map Prod.fst).sum ≤
      (s.map Prod.fst).weight ω + (s.children.map Prod.snd).sum := by
  have sums {l : List (Nat × Nat)} (each : ∀ p ∈ l, p.2 ≤ p.1) : load (l.map Prod.snd) ≤ load (l.map Prod.fst) := by
    rw [load_eq, load_eq, List.length_map, List.length_map]
    exact Nat.add_le_add_right (List.sum_le_sum each) _
  have plain (s : Shape (Nat × Nat)) : 1 + load (s.map Prod.snd).children + (s.children.map Prod.fst).sum ≤
      1 + load (s.map Prod.fst).children + (s.children.map Prod.snd).sum := by
    simp only [load_eq, children_map, List.length_map]
    omega
  cases s with
  | select q =>
    -- What a select holds is the exponent of what its source weighs, so the two parts are bounded apart.
    have held : ∀ p ∈ q.held, p.2 ≤ p.1 := fun p member =>
      lighter p ((Select.children_perm q).mem_iff.mpr (List.mem_append_right _ member))
    have source : (q.source.map Prod.snd).getD 0 ≤ (q.source.map Prod.fst).getD 0 := by
      cases reads : q.source with
      | none => exact Nat.le_refl _
      | some p => exact lighter p (Select.source_child reads)
    have total (f : Nat × Nat → Nat) :
        (q.children.map f).sum = (q.source.map f).getD 0 + (q.held.map f).sum := by
      rw [((Select.children_perm q).map f).sum_eq, List.map_append, List.sum_append]
      cases q.source <;> simp
    have grows := pow_expands source (Nat.add_le_add_left (sums held) 2)
    simp only [Shape.map, weight, Shape.children, Select.held_map, total] at grows ⊢
    simp only [load_eq, List.length_map] at grows ⊢
    simp only [Select.map] at grows ⊢
    omega
  | binary op left right type =>
    have first : left.2 ≤ left.1 := lighter left (by simp [Shape.children])
    have second : right.2 ≤ right.1 := lighter right (by simp [Shape.children])
    have grows := mul_expands first second
    have shrinks : (1 + left.2) * (1 + right.2) ≤ (1 + left.1) * (1 + right.1) := Nat.mul_le_mul (by omega) (by omega)
    simp only [Shape.map, weight, Shape.children, List.map_cons, List.map_nil, List.sum_cons, List.sum_nil]
    split <;> omega
  | call routine arguments type =>
    by_cases membership : routine = .isIn
    · cases arguments with
      | nil => exact Nat.le_refl _
      | cons operand items =>
        have first : operand.2 ≤ operand.1 := lighter operand (by simp [Shape.children])
        have second : load (items.map Prod.snd) ≤ load (items.map Prod.fst) :=
          sums fun p member => lighter p (by simp [Shape.children, member])
        have grows := mul_expands first second
        have shrinks : (1 + operand.2) * (1 + load (items.map Prod.snd)) ≤
          (1 + operand.1) * (1 + load (items.map Prod.fst)) := Nat.mul_le_mul (by omega) (by omega)
        simp only [Shape.map, weight, if_pos membership, Shape.children, List.map_cons, List.sum_cons, List.headD_cons,
          List.tail_cons]
        simp only [load_eq, List.length_map] at grows shrinks ⊢
        omega
    · simp only [Shape.map, weight, if_neg membership]
      exact plain (.call routine arguments type)
  | groupAggregate label inGroup asQuery type =>
    simp only [Shape.map, weight, Shape.children, List.map_cons, List.map_nil, List.sum_cons, List.sum_nil]
    omega
  | table name label type => exact Nat.le_refl _
  | column c => exact Nat.le_refl _
  | constant value type => exact Nat.le_refl _
  | _ => exact plain _

theorem weight_pos {s : Shape Nat} (notConstant : s.kind ≠ .constant) : 0 < s.weight ω := by
  cases s with
  | constant value type => exact absurd rfl notConstant
  | select q =>
    have some : 0 < (1 + q.source.getD 0) * 2 ^ (2 + load q.held) := by positivity
    exact Nat.lt_of_lt_of_le some (Nat.le_add_left _ _)
  | binary op left right type =>
    simp only [weight]
    split
    · omega
    · positivity
  | call routine arguments type =>
    simp only [weight]
    split
    · positivity
    · omega
  | table | column | groupAggregate => simp only [weight]; omega
  | _ => exact Nat.lt_of_lt_of_le Nat.zero_lt_one (Nat.le_add_right 1 (load _))

theorem sum_lt_weight {s : Shape Nat} (notConstant : s.kind ≠ .constant) : s.children.sum < s.weight ω := by
  have grows := weight_expands (ω := ω) (s := s.map fun w => (w, 0)) (by simp)
  have some := weight_pos (ω := ω) (s := (s.map fun w => (w, 0)).map Prod.snd)
    (by simpa only [kind_map] using notConstant)
  have none : ((s.map fun w => (w, 0)).children.map Prod.snd).sum = 0 := by simp [Function.comp_def]
  rw [none] at grows
  simp only [map_map, map_id, children_map, List.map_map, Function.comp_def, List.map_id'] at grows some
  omega

theorem weight_congr {ω' : String → Nat} {s : Shape Nat} (same : ∀ label ∈ s.label?, ω label = ω' label) :
    s.weight ω = s.weight ω' := by
  cases s with
  | table name label type => exact congrArg (· + 1) (same label rfl)
  | column c => exact congrArg (· + 1) (same c.label rfl)
  | select q => exact congrArg (· + _) (same q.label rfl)
  | groupAggregate label inGroup asQuery type => exact congrArg (· + 3 + inGroup + asQuery) (same label rfl)
  | _ => rfl

end Shape

namespace Node

variable {ω : String → Nat}

def weight (ω : String → Nat) : Node → Nat := fold (Shape.weight ω)

theorem weight_mk (s : Shape Node) : (Node.mk s).weight ω = (s.map (weight ω)).weight ω := fold_mk _ s

section Layer

variable {s : Shape (Node × Node)}

theorem weight_expands (lighter : ∀ p ∈ s.children, p.2.weight ω ≤ p.1.weight ω) :
    (Node.mk (s.map Prod.snd)).weight ω + load (s.children.map fun p => p.1.weight ω) ≤
      (Node.mk (s.map Prod.fst)).weight ω + load (s.children.map fun p => p.2.weight ω) := by
  have grows := Shape.weight_expands (ω := ω) (s := s.map fun p => (p.1.weight ω, p.2.weight ω))
    (by simpa only [Shape.children_map, List.forall_mem_map] using lighter)
  simp only [Shape.map_map, Shape.children_map, List.map_map, Function.comp_def] at grows
  rw [weight_mk, weight_mk, Shape.map_map, Shape.map_map, load_eq, load_eq, List.length_map, List.length_map]
  omega

theorem weight_le (lighter : ∀ p ∈ s.children, p.2.weight ω ≤ p.1.weight ω) :
    (Node.mk (s.map Prod.snd)).weight ω ≤ (Node.mk (s.map Prod.fst)).weight ω := by
  have grows := weight_expands lighter
  have sums := List.sum_le_sum lighter
  simp only [load_eq, List.length_map] at grows
  omega

theorem weight_same (lighter : ∀ p ∈ s.children, p.2.weight ω ≤ p.1.weight ω)
    (same : (Node.mk (s.map Prod.snd)).weight ω = (Node.mk (s.map Prod.fst)).weight ω) :
    ∀ p ∈ s.children, p.2.weight ω = p.1.weight ω := by
  intro p child
  by_contra other
  have grows := weight_expands lighter
  have sums := List.sum_lt_sum _ _ lighter ⟨p, child, lt_of_le_of_ne (lighter p child) other⟩
  simp only [load_eq, List.length_map] at grows
  omega

end Layer

@[simp] theorem weight_tuple (elements : List Node) :
    (Node.tuple elements).weight ω = 1 + load (elements.map (weight ω)) := weight_mk _

@[simp] theorem weight_object (entity : String) (keys : List (Binding Node)) :
    (Node.object entity keys).weight ω = 1 + load (keys.map fun k => k.expr.weight ω) := by
  rw [weight_mk]
  simp [Shape.map, Shape.weight, Shape.children, Binding.map, Function.comp_def]

@[simp] theorem weight_constant (value : Value) (type : DataType) : (Node.constant value type).weight ω = value.size :=
  weight_mk _

@[simp] theorem weight_column (c : Column) : (Node.column c).weight ω = ω c.label + 1 := weight_mk _

@[simp] theorem weight_groupAggregate (label : String) (inGroup asQuery : Node) (type : DataType) :
    (Node.groupAggregate label inGroup asQuery type).weight ω = ω label + 3 + inGroup.weight ω + asQuery.weight ω :=
  weight_mk _

@[simp] theorem weight_unary (op : UnaryOp) (operand : Node) (type : DataType) :
    (Node.unary op operand type).weight ω = 1 + (1 + operand.weight ω) := weight_mk _

theorem weight_join (kind : JoinKind) (left right : Node) (condition : Option Node) :
    (Node.join kind left right condition).weight ω =
      1 + (1 + left.weight ω + (1 + right.weight ω + load (condition.toList.map (weight ω)))) :=
  (weight_mk _).trans (congrArg (1 + load ·) (Shape.children_map _ (.join kind left right condition)))

theorem weight_conditional (branches : List (Branch Node)) (otherwise : Option Node) (type : DataType) :
    (Node.conditional branches otherwise type).weight ω =
      1 + load ((branches.flatMap Branch.children ++ otherwise.toList).map (weight ω)) :=
  (weight_mk _).trans (congrArg (1 + load ·) (Shape.children_map _ (.conditional branches otherwise type)))

theorem weight_connective {op : BinaryOp} (logical : op.isLogical = true) (left right : Node) (type : DataType) :
    (Node.binary op left right type).weight ω = 3 + left.weight ω + right.weight ω :=
  (weight_mk _).trans (if_pos logical)

theorem weight_comparison {op : BinaryOp} (other : op.isLogical = false) (left right : Node) (type : DataType) :
    (Node.binary op left right type).weight ω = 5 * ((1 + left.weight ω) * (1 + right.weight ω)) :=
  (weight_mk _).trans (if_neg (by simp [other]))

theorem weight_call {routine : Routine} (other : routine ≠ .isIn) (arguments : List Node) (type : DataType) :
    (Node.call routine arguments type).weight ω = 1 + load (arguments.map (weight ω)) :=
  (weight_mk _).trans (if_neg other)

theorem weight_membership (operand : Node) (items : List Node) (type : DataType) :
    (Node.call .isIn (operand :: items) type).weight ω =
      5 * ((1 + operand.weight ω) * (1 + load (items.map (weight ω)))) := weight_mk _

theorem sum_weight {s : Shape Node} (notConstant : s.kind ≠ .constant) :
    (s.children.map (weight ω)).sum < (Node.mk s).weight ω := by
  rw [weight_mk, ← Shape.children_map]
  exact Shape.sum_lt_weight (by rwa [Shape.kind_map])

theorem weight_pos {s : Shape Node} (notConstant : s.kind ≠ .constant) : 0 < (Node.mk s).weight ω :=
  Nat.zero_lt_of_lt (sum_weight notConstant)

theorem weight_child {s : Shape Node} {c : Node} (child : c ∈ s.children) : c.weight ω < (Node.mk s).weight ω := by
  have notConstant : s.kind ≠ .constant := by
    intro constant
    cases s <;> first | cases constant; done | cases child
  exact Nat.lt_of_le_of_lt (List.le_sum_of_mem (List.mem_map_of_mem child)) (sum_weight notConstant)

end Node

/-- What a select weighs beside its source. -/
def Select.burden (ω : String → Nat) (q : Select Node) : Nat := load (q.held.map (Node.weight ω))

namespace Node

variable {ω : String → Nat}

theorem weight_select (q : Select Node) : (Node.select q).weight ω =
    ω q.label + (1 + (q.source.map (weight ω)).getD 0) * 2 ^ (2 + q.burden ω) := by
  rw [weight_mk]
  simp only [Shape.map, Shape.weight, Select.held_map, Select.burden]
  rfl

theorem weight_lt {p q : Select Node} (label : p.label = q.label)
    (source : (p.source.map (weight ω)).getD 0 ≤ (q.source.map (weight ω)).getD 0)
    (burden : p.burden ω < q.burden ω) : (Node.select p).weight ω < (Node.select q).weight ω := by
  rw [weight_select, weight_select, label]
  have less : 2 ^ (2 + p.burden ω) < 2 ^ (2 + q.burden ω) := Nat.pow_lt_pow_right (by decide) (by omega)
  have product := Nat.mul_lt_mul_of_le_of_lt (Nat.add_le_add_left source 1) less (by omega)
  omega

/-- What a node weighs as a source, for the select that passes on the columns of the source. A join has no label of its
own, so none of its columns are passed on. -/
def front (ω : String → Nat) : Node → Nat
  | .table _ label _ => ω label + 1
  | .select q => ω q.label + 1
  | .join .. => 0
  | n => n.weight ω

theorem front_le (n : Node) : n.front ω ≤ n.weight ω := by
  obtain ⟨s⟩ := n
  cases s with
  | table name label type => exact Nat.le_refl _
  | select q =>
    rw [weight_select]
    have some : 0 < (1 + (q.source.map (weight ω)).getD 0) * 2 ^ (2 + q.burden ω) := by positivity
    exact Nat.add_le_add_left some _
  | join kind left right condition => exact Nat.zero_le _
  | _ => exact Nat.le_refl _

def allLabels (n : Node) : List String := n.subtrees.filterMap (·.shape.label?)

theorem weight_congr {ω' : String → Nat} {n : Node} (same : ∀ label ∈ n.allLabels, ω label = ω' label) :
    n.weight ω = n.weight ω' := by
  induction n using inductNode with
  | step s ih =>
    simp only [allLabels, subtrees_mk, List.mem_filterMap, List.mem_cons, List.mem_flatMap] at same ih
    have below : s.map (weight ω) = s.map (weight ω') := Shape.map_congr fun c child =>
      ih c child fun label ⟨m, member, own⟩ => same label ⟨m, .inr ⟨c, child, member⟩, own⟩
    rw [weight_mk, weight_mk, below]
    refine Shape.weight_congr fun label own => same label ⟨_, .inl rfl, ?_⟩
    cases s <;> exact own

end Node

end QueryTree
