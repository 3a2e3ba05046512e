import QueryTree.Proofs.Pass.Layers
import QueryTree.Proofs.Pass.Rules

/-! Comparisons with a null literal.

A comparison with a null literal is written as a test for null, unlike one with an expression that comes to null. So what
a comparison says changes when a pass puts a null literal under it. Where no literal is null, every `CASE` has an `ELSE`
and every `COALESCE` an argument, no pass makes a null.
-/

set_option autoImplicit false

namespace QueryTree

/-! ### Values and layers that are not null -/

namespace Value

mutual

/-- Neither null nor a list with a null in it. -/
def isGiven : Value → Bool
  | .null => false
  | .list items => allGiven items
  | _ => true

def allGiven : List Value → Bool
  | [] => true
  | item :: rest => isGiven item && allGiven rest

end

theorem allGiven_iff {items : List Value} : allGiven items = true ↔ ∀ v ∈ items, v.isGiven = true := by
  induction items with
  | nil => simp [allGiven]
  | cons item rest ih => simp [allGiven, ih]

theorem isNull_ofGiven {v : Value} (given : v.isGiven = true) : v.isNull = false := by
  cases v <;> first | rfl | cases given

end Value

/-- A layer that comes to null only if something in it does. -/
@[simp] def Shape.isGiven {α : Type} : Shape α → Bool
  | .constant value _ => value.isGiven
  | .conditional _ otherwise _ => otherwise.isSome
  | .call .coalesce arguments _ => !arguments.isEmpty
  | _ => true

theorem Shape.isGiven_map {α β : Type} (f : α → β) (s : Shape α) : (s.map f).isGiven = s.isGiven := by
  cases s with
  | conditional branches otherwise type => simp [map, isGiven]
  | call routine arguments type => cases routine <;> simp [map, isGiven]
  | _ => rfl

namespace Node

def isGiven : Node → Bool := every Shape.isGiven

theorem isGiven_iff {s : Shape Node} :
    (Node.mk s).isGiven = true ↔ s.isGiven = true ∧ ∀ c ∈ s.children, c.isGiven = true := by
  rw [← Shape.isGiven_map (fun _ => ()) s]
  exact every_mk

theorem isGiven_layerwise : Layerwise fun n => n.isGiven = true :=
  every_layerwise (fun _ => rfl) (fun _ => rfl) fun _ _ _ => rfl

theorem isGiven_constant {value : Value} {type : DataType} :
    (Node.constant value type).isGiven = true ↔ value.isGiven = true := by
  simp [isGiven_iff, Shape.isGiven, Shape.children]

theorem isGiven_literal {value : Value} : (Node.literal value).isGiven = true ↔ value.isGiven = true := isGiven_constant

theorem isGiven_binary {op : BinaryOp} {left right : Node} {type : DataType} :
    (Node.binary op left right type).isGiven = true ↔ left.isGiven = true ∧ right.isGiven = true := by
  simp [isGiven_iff, Shape.isGiven, Shape.children]

theorem isGiven_unary {op : UnaryOp} {operand : Node} {type : DataType} :
    (Node.unary op operand type).isGiven = true ↔ operand.isGiven = true := by
  simp [isGiven_iff, Shape.isGiven, Shape.children]

theorem isGiven_conditional {branches : List (Branch Node)} {otherwise : Option Node} {type : DataType} :
    (Node.conditional branches otherwise type).isGiven = true ↔ otherwise.isSome = true ∧
      (∀ b ∈ branches, b.condition.isGiven = true ∧ b.result.isGiven = true) ∧ ∀ n ∈ otherwise, n.isGiven = true := by
  rw [isGiven_iff, Shape.forall_conditional]
  rfl

theorem isGiven_call {routine : Routine} {arguments : List Node} {type : DataType} :
    (Node.call routine arguments type).isGiven = true ↔
      (routine = .coalesce → arguments ≠ []) ∧ ∀ n ∈ arguments, n.isGiven = true := by
  rw [isGiven_iff]
  cases routine <;> simp [Shape.isGiven, Shape.children]

end Node

/-! ### Rules -/

namespace Pass

theorem keyParts_given (n : Node) (given : n.isGiven = true) : ∀ p ∈ keyParts n, p.isGiven = true := by
  induction n using Node.inductNode with
  | step s ih =>
    have below := (Node.isGiven_iff.mp given).2
    have alone (f : Node → List Node) : ∀ p ∈ [Node.mk ((s.map fun c => (c, f c)).map Prod.fst)], p.isGiven = true := by
      rw [Shape.map_map, Shape.map_id]
      simpa using given
    unfold keyParts
    rw [Node.para_mk]
    cases s with
    | tuple elements =>
      simp only [Shape.map, List.flatMap_map, List.forall_mem_flatMap]
      exact fun c member => ih c member (below c member)
    | object entity keys =>
      simp only [Shape.map, List.flatMap_map, List.forall_mem_flatMap]
      exact fun k member => ih k.expr (List.mem_map_of_mem member) (below _ (List.mem_map_of_mem member))
    | _ => exact alone _

theorem flattenKeys_given (n : Node) (given : n.isGiven = true) : (flattenKeys n).isGiven = true := by
  unfold flattenKeys
  split
  · rename_i q
    have below : ∀ c ∈ q.children, c.isGiven = true := (Node.isGiven_iff.mp given).2
    obtain ⟨columns, source, filter, groups, order, skip, take⟩ := Select.forall_children.mp below
    refine Node.isGiven_iff.mpr ⟨rfl, Select.forall_children.mpr ⟨columns, source, filter, ?_, order, skip, take⟩⟩
    exact List.forall_mem_flatMap.mpr fun key member => keyParts_given key (groups key member)
  · exact given

theorem flattenCall_given (n : Node) (given : n.isGiven = true) : (flattenCall n).isGiven = true := by
  unfold flattenCall
  split
  · rename_i routine arguments type
    obtain ⟨some, each⟩ := Node.isGiven_call.mp given
    split
    · -- An inner call of the routine has an argument if it needs one, as the outer has.
      have parts (n : Node) (member : n ∈ arguments) : (routine = .coalesce → spliced routine n ≠ []) ∧
          ∀ c ∈ spliced routine n, c.isGiven = true := by
        unfold spliced
        split
        · split
          · rename_i same
            subst same
            exact Node.isGiven_call.mp (each _ member)
          · simpa using each _ member
        · simpa using each _ member
      refine Node.isGiven_call.mpr ⟨fun coalesce => ?_, List.forall_mem_flatMap.mpr fun n member => (parts n member).2⟩
      obtain ⟨first, rest, rfl⟩ := List.exists_cons_of_ne_nil (some coalesce)
      simp [(parts first (by simp)).1 coalesce]
    · exact given
  · exact given

theorem unwrapCall_given (n : Node) (given : n.isGiven = true) : (unwrapCall n).isGiven = true := by
  unfold unwrapCall
  split
  · exact (Node.isGiven_call.mp given).2 _ (by simp)
  · exact (Node.isGiven_call.mp given).2 _ (by simp)
  · split
    · exact (Node.isGiven_call.mp given).2 _ (by simp)
    · exact given
  · exact given

theorem simplifyConnective_given (n : Node) (given : n.isGiven = true) : (simplifyConnective n).isGiven = true := by
  have absorbed (absorbing b : Bool) {other : Node} (given : other.isGiven = true) :
      (absorb absorbing b other).isGiven = true := by
    unfold absorb
    split
    · exact Node.isGiven_literal.mpr rfl
    · exact given
  unfold simplifyConnective
  split
  · obtain ⟨left, right⟩ := Node.isGiven_binary.mp given
    split
    · exact absorbed _ _ right
    · exact absorbed _ _ left
    · exact given
  · exact Node.isGiven_unary.mp (Node.isGiven_unary.mp given)
  · split
    · exact Node.isGiven_literal.mpr rfl
    · exact given
  · exact given

theorem expandComparison_given (n : Node) (given : n.isGiven = true) : (expandComparison n).isGiven = true := by
  unfold expandComparison
  split
  · rename_i op left right type
    obtain ⟨first, second⟩ := Node.isGiven_binary.mp given
    have keys {side : Node} (given : side.isGiven = true) (entity : String) (keys : List (Binding Node))
        (same : side = .object entity keys) : ∀ k ∈ keys, k.expr.isGiven = true :=
      List.forall_mem_map.mp (Node.isGiven_iff.mp (same ▸ given)).2
    have compared : ∀ n ∈ compareEntities? op left right, n.isGiven = true :=
      compareEntities_holds (keys first) (keys second) (fun first second => Node.isGiven_binary.mpr ⟨first, second⟩)
        (fun key => ⟨Node.isGiven_unary.mpr key, Node.isGiven_unary.mpr key⟩)
        fun _ first second => Node.isGiven_binary.mpr ⟨first, second⟩
    split
    · cases found : compareEntities? op left right with
      | none => exact given
      | some n => exact compared n found
    · exact given
  · exact given

theorem evaluateBinary_given {op : BinaryOp} {a b v : Value} (evaluated : evaluateBinary? op a b = some v) :
    v.isGiven = true := by
  unfold evaluateBinary? reckon? at evaluated
  grind [Value.isGiven, Option.map_eq_some_iff, Option.bind_eq_some_iff]

theorem evaluateUnary_given {op : UnaryOp} {a v : Value} (evaluated : evaluateUnary? op a = some v) :
    v.isGiven = true := by
  unfold evaluateUnary? at evaluated
  grind [Value.isGiven]

theorem routine_given {routine : Routine} {values : List Value} {v : Value} (some : routine = .coalesce → values ≠ [])
    (each : ∀ w ∈ values, w.isGiven = true) (evaluated : routine.evaluate? values = .some v) : v.isGiven = true := by
  by_cases coalesce : routine = .coalesce
  · subst coalesce
    obtain ⟨first, rest, rfl⟩ := List.exists_cons_of_ne_nil (some rfl)
    have given := each first (by simp)
    have found : Value.firstGiven (first :: rest) = first := by simp [Value.firstGiven, Value.isNull_ofGiven given]
    cases evaluated
    rwa [found]
  · unfold Routine.evaluate? at evaluated
    grind [Value.isGiven, Option.map_eq_some_iff]

theorem evaluate_given {n : Node} (given : n.isGiven = true) {v : Value} (evaluated : evaluate? n = some v) :
    v.isGiven = true := by
  unfold evaluate? at evaluated
  split at evaluated
  · obtain ⟨a, -, evaluated⟩ := Option.bind_eq_some_iff.mp evaluated
    obtain ⟨b, -, evaluated⟩ := Option.bind_eq_some_iff.mp evaluated
    exact evaluateBinary_given evaluated
  · obtain ⟨a, -, evaluated⟩ := Option.bind_eq_some_iff.mp evaluated
    exact evaluateUnary_given evaluated
  · rename_i routine arguments type
    obtain ⟨values, literals, evaluated⟩ := Option.bind_eq_some_iff.mp evaluated
    obtain ⟨some, each⟩ := Node.isGiven_call.mp given
    refine routine_given (fun coalesce => ?_) (fun w member => ?_) evaluated
    · obtain ⟨first, rest, rfl⟩ := List.exists_cons_of_ne_nil (some coalesce)
      rintro rfl
      simp [Option.bind_eq_some_iff] at literals
    · obtain ⟨n, member, literal⟩ := exists_of_mapM literals w member
      obtain ⟨type, rfl⟩ := Node.constant_some literal
      exact Node.isGiven_constant.mp (each _ member)
  · cases evaluated

theorem foldLiteral_given (n : Node) (given : n.isGiven = true) : (foldLiteral n).isGiven = true := by
  unfold foldLiteral
  split
  · rename_i value evaluated
    exact Node.isGiven_constant.mpr (evaluate_given given evaluated)
  · exact given

theorem pruneBranches_last {otherwise : Option Node} (last : otherwise.isSome = true) (branches : List (Branch Node)) :
    (pruneBranches otherwise branches).2.isSome = true := by
  induction branches with
  | nil => exact last
  | cons b rest ih =>
    unfold pruneBranches
    split
    · rfl
    · exact ih
    · exact ih
    · exact ih

theorem simplifyConditional_given (n : Node) (given : n.isGiven = true) : (simplifyConditional n).isGiven = true := by
  unfold simplifyConditional
  split
  · rename_i branches otherwise type
    obtain ⟨last, each, rest⟩ := Node.isGiven_conditional.mp given
    obtain ⟨kept, left⟩ := pruneBranches_part otherwise branches
    have remains : (pruneBranches otherwise branches).2.isSome = true := pruneBranches_last last branches
    have result : ∀ n ∈ (pruneBranches otherwise branches).2, n.isGiven = true := by
      intro n member
      rcases left n member with member | ⟨b, inside, rfl⟩
      · exact rest n member
      · exact (each b inside).2
    split
    · split
      · rename_i pruned
        exact result _ (by rw [pruned]; rfl)
      · rename_i pruned
        rw [pruned] at remains
        cases remains
      · refine Node.isGiven_conditional.mpr ⟨?_, fun b member => each b (kept b ?_), fun n member => result n ?_⟩ <;>
          simp_all
    · exact given
  · exact given

theorem literalLike_given (n : Node) {v : Value} (given : v.isGiven = true) : (literalLike n v).isGiven = true := by
  unfold literalLike
  split
  · exact Node.isGiven_literal.mpr given
  · exact Node.isGiven_constant.mpr given

theorem membership_given {operand : Node} {items : List Value} (given : operand.isGiven = true)
    (each : ∀ v ∈ items, v.isGiven = true) : ∀ n ∈ membership? operand items, n.isGiven = true := by
  refine membership_holds (Node.isGiven_literal.mpr rfl) (fun ns found => ?_)
    (fun vs item => Value.allGiven_iff.mp (each _ item))
    (fun part value => Node.isGiven_binary.mpr ⟨part, literalLike_given _ value⟩)
    (fun _ first second => Node.isGiven_binary.mpr ⟨first, second⟩) ?_
  · obtain ⟨s, rfl, -, rfl⟩ := components_some found
    exact (Node.isGiven_iff.mp given).2
  · intro scalar
    refine Node.isGiven_call.mpr ⟨(nomatch ·), List.forall_mem_cons.mpr ⟨given, ?_⟩⟩
    exact List.forall_mem_map.mpr fun v item => literalLike_given operand (each v item)

theorem expandMembership_given (n : Node) (given : n.isGiven = true) : (expandMembership n).isGiven = true := by
  unfold expandMembership
  split
  · rename_i operand items listType type
    have arguments := (Node.isGiven_call.mp given).2
    have itemsGiven : (Value.list items).isGiven = true :=
      Node.isGiven_constant.mp (arguments (.constant (.list items) listType) (by simp))
    cases found : membership? operand items with
    | none => exact given
    | some n => exact membership_given (arguments operand (by simp)) (Value.allGiven_iff.mp itemsGiven) n found
  · exact given

theorem all_given : ∀ pass ∈ all, ∀ n : Node, n.isGiven = true → (pass.transform n).isGiven = true := by
  have layers := Node.isGiven_layerwise
  have rule {rule : Node → Node} (each : ∀ n, n.isGiven = true → (rule n).isGiven = true) (n : Node)
    (given : n.isGiven = true) : (n.mapUp rule).isGiven = true := layers.mapUp each given
  simp only [all, List.forall_mem_cons]
  exact ⟨rule flattenKeys_given, fun _ => groupAggregates_holds layers, fun _ => unusedColumns_holds layers,
    fun _ => equalColumns_holds layers, fun _ => sources_holds layers, rule flattenCall_given,
    rule simplifyConnective_given, rule expandComparison_given, rule foldLiteral_given, rule unwrapCall_given,
    rule simplifyConditional_given, rule expandMembership_given, fun _ member => absurd member List.not_mem_nil⟩

end Pass

/-- Where no literal is null, every `CASE` has an `ELSE` and every `COALESCE` an argument, it stays so. -/
theorem Pipeline.optimize_given {n : Node} (given : n.isGiven = true) : (Pipeline.standard.optimize n).isGiven = true :=
  Pipeline.standard.optimize_keeps Pass.all_given given

end QueryTree
