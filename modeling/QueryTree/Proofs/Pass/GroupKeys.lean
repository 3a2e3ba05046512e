import QueryTree.Proofs.Node.Labels
import QueryTree.Proofs.Pass.Rules

/-! Group keys taken apart.

Every select of a tree is grouped by the scalars of its keys, in the order in which they stand there, and by nothing else.
A key that has no scalar in it leaves nothing behind, so a select whose keys are all such is grouped no longer.
-/

set_option autoImplicit false

namespace QueryTree

/-- A composite without any scalar, however deep. -/
def Node.isHollow : Node → Bool :=
  fold fun
    | .tuple elements => elements.all id
    | .object _ keys => keys.all (·.expr)
    | _ => false

namespace Pass

variable {n : Node}

/-! ### The scalars of a key -/

theorem keyParts_scalar (scalar : isComposite n = false) : keyParts n = [n] := by
  obtain ⟨s⟩ := n
  rw [keyParts_mk]
  cases s <;> first | rfl | cases scalar

theorem keyParts_plain (n : Node) : ∀ p ∈ keyParts n, isComposite p = false := by
  induction n using Node.inductNode with
  | step s ih =>
    intro p member
    rw [keyParts_mk] at member
    split at member
    · obtain ⟨c, inside, member⟩ := List.mem_flatMap.mp member
      exact ih c inside p member
    · obtain ⟨k, inside, member⟩ := List.mem_flatMap.mp member
      exact ih k.expr (List.mem_map_of_mem inside) p member
    · rename_i noTuple noObject
      cases List.mem_singleton.mp member
      cases s with
      | tuple elements => exact absurd rfl (noTuple elements)
      | object entity keys => exact absurd rfl (noObject entity keys)
      | _ => rfl

theorem keyParts_nil (n : Node) : keyParts n = [] ↔ n.isHollow = true := by
  induction n using Node.inductNode with
  | step s ih =>
    unfold Node.isHollow at ih ⊢
    rw [keyParts_mk, Node.fold_mk]
    cases s with
    | tuple elements =>
      simp only [Shape.map, List.flatMap_eq_nil_iff, List.all_map, List.all_eq_true]
      exact forall₂_congr ih
    | object entity keys =>
      simp only [Shape.map, List.flatMap_eq_nil_iff, List.all_map, List.all_eq_true]
      exact forall₂_congr fun k inside => ih k.expr (List.mem_map_of_mem inside)
    | _ => simp [Shape.map]

theorem keyParts_queries (n : Node) : (keyParts n).flatMap Node.queries = n.queries :=
  keyParts_flatMap (fun _ => Node.queries_mk _) (fun _ _ => (Node.queries_mk _).trans (List.flatMap_map ..)) n

/-! ### The selects of a tree -/

theorem groupKeys_mk (s : Shape Node) : groupKeys.transform (.mk s) = flattenKeys (.mk (s.map groupKeys.transform)) :=
  Node.mapUp_mk flattenKeys s

theorem keyParts_transform (n : Node) : keyParts (groupKeys.transform n) = (keyParts n).map groupKeys.transform := by
  induction n using Node.inductNode with
  | step s ih =>
    rw [groupKeys_mk, keyParts_mk]
    cases s with
    | tuple elements =>
      show keyParts (.mk (.tuple _)) = _
      rw [keyParts_mk, List.map_flatMap]
      simp only [List.flatMap_map]
      exact List.flatMap_congr ih
    | object entity keys =>
      show keyParts (.mk (.object entity _)) = _
      rw [keyParts_mk, List.map_flatMap]
      simp only [List.flatMap_map]
      exact List.flatMap_congr fun k inside => ih k.expr (List.mem_map_of_mem inside)
    | _ => rw [List.map_singleton, groupKeys_mk]; exact keyParts_scalar rfl

/-- A select grouped by the scalars of its keys, and so are the selects in it. -/
def regrouped (q : Select Node) : Select Node :=
  { q.map groupKeys.transform with groupBy := (q.groupBy.flatMap keyParts).map groupKeys.transform }

theorem groupKeys_select (q : Select Node) : groupKeys.transform (.select q) = .select (regrouped q) := by
  have parts : (q.map groupKeys.transform).groupBy.flatMap keyParts =
      (q.groupBy.flatMap keyParts).map groupKeys.transform := by
    simp only [Select.map, List.flatMap_map, List.map_flatMap]
    exact List.flatMap_congr fun k _ => keyParts_transform k
  rw [groupKeys_mk, regrouped, ← parts]
  rfl

theorem regrouped_queries (q : Select Node) :
    (regrouped q).children.flatMap Node.queries = (q.map groupKeys.transform).children.flatMap Node.queries := by
  have parts : ((q.groupBy.flatMap keyParts).map groupKeys.transform).flatMap Node.queries =
      (q.groupBy.map groupKeys.transform).flatMap Node.queries := by
    rw [List.map_flatMap, List.flatMap_assoc, List.flatMap_map]
    refine List.flatMap_congr fun k _ => ?_
    rw [← keyParts_transform, keyParts_queries]
  simp only [Select.children, List.flatMap_append, regrouped, parts]
  rfl

theorem groupKeys_queries (n : Node) : (groupKeys.transform n).queries = n.queries.map regrouped := by
  induction n using Node.inductNode with
  | step s ih =>
    have within : (s.map groupKeys.transform).children.flatMap Node.queries =
        (s.children.flatMap Node.queries).map regrouped := by
      rw [Shape.children_map, List.flatMap_map, List.map_flatMap]
      exact List.flatMap_congr ih
    -- Only a select is made anew, over the same selects.
    cases s with
    | select q =>
      rw [groupKeys_select, Node.queries_mk, Node.queries_mk]
      exact congrArg (regrouped q :: ·) ((regrouped_queries q).trans within)
    | _ =>
      rw [groupKeys_mk, Node.queries_mk]
      exact (Node.queries_mk _).trans within

theorem regrouped_plain (q : Select Node) : ∀ k ∈ (regrouped q).groupBy, isComposite k = false := by
  intro k inside
  obtain ⟨p, part, rfl⟩ := List.mem_map.mp inside
  obtain ⟨key, -, part⟩ := List.mem_flatMap.mp part
  -- A scalar is its own only part, and so is what the pass makes of it.
  have alone : keyParts (groupKeys.transform p) = [groupKeys.transform p] := by
    rw [keyParts_transform, keyParts_scalar (keyParts_plain key p part), List.map_singleton]
  exact keyParts_plain (groupKeys.transform p) _ (alone ▸ List.mem_singleton.mpr rfl)

/-- Every select of a tree is grouped by the scalars of its keys in their order, and is no longer grouped where its keys
hold none. -/
theorem groupKeys_regroups (n : Node) : (groupKeys.transform n).queries = n.queries.map regrouped ∧
    ∀ q : Select Node, (regrouped q).groupBy = (q.groupBy.flatMap keyParts).map groupKeys.transform ∧
      (∀ k ∈ (regrouped q).groupBy, isComposite k = false) ∧
      ((regrouped q).groupBy = [] ↔ ∀ k ∈ q.groupBy, k.isHollow = true) := by
  refine ⟨groupKeys_queries n, fun q => ⟨rfl, regrouped_plain q, ?_⟩⟩
  simp only [regrouped, List.map_eq_nil_iff, List.flatMap_eq_nil_iff, keyParts_nil]

/-- One row for each `Log`, an entity without keys. -/
def perLog : Select Node :=
  { label := "s", columns := [⟨"one", .constant (.int32 1) .int32⟩], source := some (.table "T" "t0" .void)
    groupBy := [.object "Log" []], type := .void }

/-- The only key holds no scalar, so the select gives a row for every row of its source. -/
theorem keyless_group_lost : groupKeys.transform (.select perLog) = .select { perLog with groupBy := [] } := rfl

end Pass

end QueryTree
