import QueryTree.Pass.Merging
import QueryTree.Proofs.Node.Labels
import QueryTree.Proofs.Rows.Meaning

/-! Expressions over one row.

What holds of columns in scope and of a layer as soon as it holds of its children holds of a whole expression. So an
expression holds no select and no label, aggregates nothing, and has its value from the columns in scope alone.
-/

set_option autoImplicit false

namespace QueryTree

variable {scope : Column → Bool} {n : Node}

namespace Node

theorem evaluate_column {β : Type} (leaf : Column → β) (step : Shape β → β) (c : Column) :
    (Node.column c).evaluate leaf step = leaf c := fold_mk _ _

theorem evaluate_mk {β : Type} (leaf : Column → β) (step : Shape β → β) {s : Shape Node}
    (notColumn : s.kind ≠ .column) :
    (Node.mk s).evaluate leaf step = step (s.map (evaluate leaf step)) := by
  unfold evaluate
  rw [fold_mk]
  cases s <;> first | rfl | exact absurd rfl notColumn

theorem isBound_column (c : Column) : (Node.column c).isBound scope = scope c := evaluate_column _ _ _

theorem isBound_mk {s : Shape Node} (notColumn : s.kind ≠ .column) :
    (Node.mk s).isBound scope = (s.isScalar && s.children.all (isBound scope)) := by
  have scalar {α β : Type} (f : α → β) (s : Shape α) : (s.map f).isScalar = s.isScalar := by cases s <;> rfl
  unfold isBound
  rw [evaluate_mk _ _ notColumn, scalar, Shape.children_map, List.all_map]
  rfl

/-- Induction along an expression. -/
theorem isBound_induct {P : Node → Prop} (column : ∀ c, scope c = true → P (.column c))
    (layer : ∀ s : Shape Node, s.isScalar = true → s.kind ≠ .column → (∀ c ∈ s.children, P c) → P (.mk s))
    (bound : n.isBound scope = true) : P n := by
  induction n using inductNode with
  | step s ih =>
    by_cases notColumn : s.kind ≠ .column
    · rw [isBound_mk notColumn, Bool.and_eq_true, List.all_eq_true] at bound
      exact layer s bound.1 notColumn fun c child => ih c child (bound.2 c child)
    · cases s with
      | column c => exact column c ((isBound_column c).symm.trans bound)
      | _ => exact absurd (by simp [Shape.kind]) notColumn

theorem isBound_mono {wider : Column → Bool} (within : ∀ c, scope c = true → wider c = true)
    (bound : n.isBound scope = true) : n.isBound wider = true := by
  refine isBound_induct (P := fun n => n.isBound wider = true) (fun c inScope => ?_)
    (fun s scalar notColumn each => ?_) bound
  · rw [isBound_column]
    exact within c inScope
  · rw [isBound_mk notColumn, scalar, Bool.true_and, List.all_eq_true]
    exact each

theorem evaluate_congr {β : Type} {leaf other : Column → β} {step : Shape β → β}
    (same : ∀ c, scope c = true → leaf c = other c) (bound : n.isBound scope = true) :
    n.evaluate leaf step = n.evaluate other step := by
  refine isBound_induct (P := fun n => n.evaluate leaf step = n.evaluate other step) (fun c inScope => ?_)
    (fun s _ notColumn each => ?_) bound
  · rw [evaluate_column, evaluate_column, same c inScope]
  · rw [evaluate_mk _ _ notColumn, evaluate_mk _ _ notColumn, Shape.map_congr each]

/-! ### What no expression holds -/

theorem queries_ofBound (bound : n.isBound scope = true) : n.queries = [] := by
  refine isBound_induct (P := fun n => n.queries = []) (fun c _ => ?_) (fun s scalar _ each => ?_) bound
  · rw [queries_mk]
    rfl
  · rw [queries_mk, List.flatMap_eq_nil_iff.mpr each]
    cases s <;> first | rfl | cases scalar

theorem labels_ofBound (bound : n.isBound scope = true) : n.labels = [] := by
  refine isBound_induct (P := fun n => n.labels = []) (fun c _ => ?_) (fun s scalar _ each => ?_) bound
  · rw [labels_mk]
    rfl
  · rw [labels_mk, List.flatMap_eq_nil_iff.mpr each]
    cases s <;> first | rfl | cases scalar

theorem aggregates_ofBound (bound : n.isBound scope = true) : n.aggregates = false := by
  refine isBound_induct (P := fun n => n.aggregates = false) (fun c _ => rfl) (fun s scalar _ each => ?_) bound
  have none : (s.map aggregates).children.any id = false := by
    rw [Shape.children_map, List.any_map, List.any_eq_false]
    simpa using each
  unfold aggregates
  rw [fold_mk]
  cases s <;> first | exact none | cases scalar

end Node

end QueryTree
