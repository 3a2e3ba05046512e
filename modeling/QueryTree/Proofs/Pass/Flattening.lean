import QueryTree.Pass.Merging
import QueryTree.Proofs.Node.Labels

/-! What taking source selects into their parents does to one layer. -/

set_option autoImplicit false

namespace QueryTree.Pass

theorem flatten_mk (s : Shape Node) : flatten (.mk s) =
    match s.map fun c => (flatten c).1 with
    | .select q => (.select (flattenSelect q).1, (s.children.flatMap fun c => (flatten c).2) ++ (flattenSelect q).2)
    | s' => (.mk s', s.children.flatMap fun c => (flatten c).2) := by
  unfold flatten
  rewrite [Node.fold_mk, Shape.map_map, Shape.children_map, List.flatMap_map]
  cases s <;> rfl

theorem mergeFilters_holds {P : Node → Prop} (both : ∀ {a b}, P a → P b → P (.both a b)) {inner outer : Option Node}
    (first : ∀ f ∈ inner, P f) (second : ∀ f ∈ outer, P f) : ∀ f ∈ mergeFilters inner outer, P f := by
  intro f member
  cases inner with
  | none => exact second f member
  | some i =>
    cases outer with
    | none => exact first f member
    | some o =>
      cases member
      exact both (first i rfl) (second o rfl)

theorem flatten_still {n : Node} (none : n.queries = []) : flatten n = (n, []) := by
  induction n using Node.inductNode with
  | step s ih =>
    rw [Node.queries_mk, List.append_eq_nil_iff, List.flatMap_eq_nil_iff] at none
    have below : ∀ c ∈ s.children, flatten c = (c, []) := fun c child => ih c child (none.2 c child)
    have kept : (s.map fun c => (flatten c).1) = s :=
      (Shape.map_congr fun c child => congrArg Prod.fst (below c child)).trans (Shape.map_id s)
    have mappings : s.children.flatMap (fun c => (flatten c).2) = [] :=
      List.flatMap_eq_nil_iff.mpr fun c child => congrArg Prod.snd (below c child)
    rw [flatten_mk, kept, mappings]
    cases s with
    | select q => cases none.1
    | _ => rfl

theorem flattenSelect_columns (q : Select Node) : (flattenSelect q).1.columns = q.columns := by
  unfold flattenSelect
  split
  · split
    · split <;> rfl
    · rfl
  · rfl
  · rfl

theorem flattenSelect_label (q : Select Node) : (flattenSelect q).1.label = q.label := by
  unfold flattenSelect
  split
  · split
    · split <;> rfl
    · rfl
  · rfl
  · rfl

/-- A select over a select takes it in or stays as it is. -/
theorem flattenSelect_over {outer inner : Select Node} (reads : outer.source = some (.select inner)) :
    (∃ m, Mapping.ofSelect? inner = some m ∧ (outer.projectsStar = true → inner.projectsStar = true) ∧
      flattenSelect outer = (merge outer inner, [m])) ∨ flattenSelect outer = (outer, []) := by
  unfold flattenSelect
  rw [reads]
  dsimp only
  split
  · rename_i m mapped
    split
    · rename_i mergeable
      refine .inl ⟨m, mapped, fun star => ?_, rfl⟩
      simpa [star] using (Bool.and_eq_true_iff.mp mergeable).2
    · exact .inr rfl
  · exact .inr rfl

end QueryTree.Pass
