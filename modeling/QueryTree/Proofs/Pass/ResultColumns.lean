import QueryTree.Proofs.Pass.Layers
import QueryTree.Proofs.Pass.Rules

/-! The columns of a result, which no pass changes.

Rows are read by the positions of the columns of the outermost select. It keeps its columns as long as no other select
goes by its label, and no pass makes a select of a label that was not there.
-/

set_option autoImplicit false

namespace QueryTree

variable {label : String} {names : List String}

/-- Whatever select such a pass is given, its columns stay. -/
def Pass.KeepsResult (pass : Pass) : Prop :=
  ∀ (label : String) (names : List String) (n : Node), n.Presents label names → (pass.transform n).Presents label names

theorem Node.lacks_layerwise (label : String) : Layerwise (Lacks label) where
  child := fun before child => before.child child
  layer := by
    intro s t before same each
    rw [lacks_mk] at before ⊢
    refine ⟨?_, each⟩
    rintro r rfl
    cases s with
    | select q =>
      have sameSelect : r.map (fun _ => ()) = q.map fun _ => () := Shape.select.inj same
      have sameLabel : r.label = q.label := congrArg (fun p : Select Unit => p.label) sameSelect
      rw [sameLabel]
      exact before.1 q rfl
    | _ => cases same
  select := by
    intro q r before sameLabel each
    rw [lacks_select] at before ⊢
    exact ⟨by rw [sameLabel]; exact before.1, each⟩
  column := lacks_column
  both := fun first second => (lacks_partByPart label).binary.mpr ⟨first, second⟩

/-! ### Mappings -/

namespace Mapping

variable {mappings : List Mapping}

theorem remap_presents (lack : ∀ m ∈ mappings, m.Holds (Node.Lacks label)) {n : Node} (before : n.Presents label names) :
    (n.remap mappings).Presents label names := by
  obtain ⟨q, rfl, holds⟩ := before
  unfold Node.remap
  rw [follow_mk _ _ (by simp [Shape.kind])]
  exact Node.Presents.map ⟨q, rfl, holds⟩ fun _ => follow_holds (Node.lacks_layerwise label) lack _

end Mapping

/-! ### Rules -/

namespace IsRule

variable {rule : Node → Node} {onSelect : Select Node → Select Node}

theorem children_lack (r : IsRule rule onSelect) {q : Select Node} (each : ∀ c ∈ q.children, c.Lacks label) :
    ∀ c ∈ (onSelect q).children, c.Lacks label := by
  have clauses := r.clauses (Node.lacks_partByPart label) q fun c member => each c (Select.clause_child member)
  intro c member
  rw [Select.mem_children, r.columns, r.source] at member
  rcases member with column | source | clause
  · exact each c (Select.mem_children.mpr (.inl column))
  · exact each c (Select.source_child source)
  · exact clauses c clause

theorem lacks (r : IsRule rule onSelect) (n : Node) (before : n.Lacks label) : (rule n).Lacks label := by
  obtain ⟨s⟩ := n
  by_cases ordinary : s.isOrdinary = true
  · exact r.ordinary (Node.lacks_partByPart label) s ordinary before
  · by_cases select : s.kind = .select
    · cases s with
      | select q =>
        obtain ⟨other, each⟩ := Node.lacks_select.mp before
        rw [r.select, Node.lacks_select, r.label]
        exact ⟨other, r.children_lack each⟩
      | _ => cases select
    · rwa [r.still s (by simpa using ordinary) select]

theorem keepsResult (r : IsRule rule onSelect) {pass : Pass} (made : pass.transform = Node.mapUp rule) :
    pass.KeepsResult := by
  intro label names n before
  rw [made]
  refine before.mapUp r.lacks fun q presents => ?_
  obtain ⟨sameLabel, sameNames, alone⟩ := Node.presents_select.mp presents
  rw [r.select, Node.presents_select, r.label, r.columns]
  exact ⟨sameLabel, sameNames, r.children_lack alone⟩

end IsRule

namespace Pass

/-! ### Columns that nothing refers to -/

theorem pruneUnused_presents {n : Node} (before : n.Presents label names) : (pruneUnused n).Presents label names := by
  have layers := Node.lacks_layerwise label
  refine before.mapUp (pruneSources_holds layers _) fun q presents => ?_
  unfold pruneSources
  dsimp only
  split
  · exact presents
  · obtain ⟨sameLabel, sameNames, alone⟩ := Node.presents_select.mp presents
    exact Node.presents_select.mpr ⟨sameLabel, sameNames, children_withSource alone (prunedSource_holds layers _ alone)⟩

theorem unusedColumns_keepsResult : unusedColumns.KeepsResult := fun _ _ n before =>
  Node.untilStable_keeps (P := Node.Presents _ _) (fun _ => pruneUnused_presents) _ n before

/-! ### Equal columns -/

theorem Dropped.insert_mem {dropped : Dropped} {s : Select Node} {e : String × List Duplicate}
    (member : e ∈ dropped.insert s) : e ∈ dropped ∨ e = (s.label, Duplicate.of s) := by
  unfold insert at member
  split at member
  · exact .inl member
  · rcases List.mem_cons.mp member with rfl | member
    · exact .inr rfl
    · exact .inl (List.mem_filter.mp member).1

theorem Dropped.find_mem {n : Node} {e : String × List Duplicate} (member : e ∈ find n) :
    ∃ s ∈ sources n, e = (s.label, Duplicate.of s) := by
  -- A later source of a label takes the place of the earlier one, so only what was inserted can be found.
  have foldl (l : List (Select Node)) : ∀ dropped : Dropped, e ∈ l.foldl insert dropped →
      e ∈ dropped ∨ ∃ s ∈ l, e = (s.label, Duplicate.of s) := by
    induction l with
    | nil => exact fun _ member => .inl member
    | cons s rest ih =>
      intro dropped member
      rcases ih _ member with inside | ⟨r, later, same⟩
      · rcases insert_mem inside with before | same
        · exact .inl before
        · exact .inr ⟨s, by simp, same⟩
      · exact .inr ⟨r, List.mem_cons_of_mem _ later, same⟩
  exact (foldl _ [] member).resolve_left List.not_mem_nil

theorem Dropped.sources_read {n : Node} {s : Select Node} (member : s ∈ sources n) :
    ∃ p source, .select p ∈ n.subtrees ∧ p.source = some source ∧ .select s ∈ source.subtrees := by
  obtain ⟨p, selected, inSource⟩ := List.mem_flatMap.mp member
  obtain ⟨m, inTree, selected⟩ := List.mem_filterMap.mp selected
  obtain rfl : m = .select p := by
    obtain ⟨shape⟩ := m
    cases shape <;> first | cases selected; rfl | cases selected
  cases found : p.source with
  | none => simp [found] at inSource
  | some source => exact ⟨p, source, inTree, found, Node.sourceSelects_mem (by simpa [found] using inSource)⟩

theorem Dropped.sources_mem {n : Node} {s : Select Node} (member : s ∈ sources n) : .select s ∈ n.subtrees := by
  obtain ⟨p, source, inTree, reads, inside⟩ := sources_read member
  exact Node.subtrees_trans inTree (Node.mem_subtrees_of_child (Select.source_child reads) inside)

theorem Dropped.sources_other {n : Node} (presents : n.Presents label names) : ∀ s ∈ sources n, s.label ≠ label := by
  obtain ⟨q, rfl, -, -, alone⟩ := presents
  intro s member
  obtain ⟨p, source, inTree, reads, inside⟩ := sources_read member
  have child : source ∈ (Shape.select p).children := Select.source_child reads
  rw [Node.subtrees_mk] at inTree
  rcases List.mem_cons.mp inTree with same | inTree
  · cases same
    exact alone source child s inside
  · obtain ⟨c, inRoot, below⟩ := List.mem_flatMap.mp inTree
    exact (((alone c inRoot).subtree below).child child) s inside

theorem Dropped.find_other {n : Node} (presents : n.Presents label names) : (find n).of? label = none := by
  rw [of?, Option.map_eq_none_iff, List.find?_eq_none]
  intro e member
  obtain ⟨s, inSources, rfl⟩ := find_mem member
  simpa using sources_other presents s inSources

theorem equalColumns_keepsResult : equalColumns.KeepsResult := by
  intro label names n before
  refine Mapping.remap_presents (fun m member => ?_) ?_
  · obtain ⟨e, _, rfl⟩ := List.mem_map.mp member
    exact Dropped.mapping_holds (Node.lacks_layerwise label) _ _
  · refine before.mapUp (dropColumns_holds (Node.lacks_layerwise label) _) fun q presents => ?_
    obtain ⟨rfl, -, -⟩ := Node.presents_select.mp presents
    unfold dropColumns
    dsimp only
    rwa [Dropped.find_other before]

/-! ### Sources that a select can do without -/

theorem sources_keepsResult : sources.KeepsResult := by
  intro label names n before
  obtain ⟨q, rfl, -, -, alone⟩ := id before
  have layers := Node.lacks_layerwise label
  have layer := before.map (f := fun c => (flatten c).1) fun c lacks => (flatten_holds layers lacks).1
  obtain ⟨sameLabel, sameNames, below⟩ := Node.presents_select.mp layer
  obtain ⟨keptLabel, keptColumns, alone', own⟩ := flattenSelect_holds layers below
  have flattened : flatten (.select q) = (.select (flattenSelect (q.map fun c => (flatten c).1)).1,
      (q.children.flatMap fun c => (flatten c).2) ++ (flattenSelect (q.map fun c => (flatten c).1)).2) := flatten_mk _
  have made : sources.transform = mergeSources := rfl
  rw [made, mergeSources, flattened]
  refine Mapping.remap_presents (List.forall_mem_append.mpr ⟨fun m member => ?_, own⟩) ?_
  · obtain ⟨c, child, member⟩ := List.mem_flatMap.mp member
    exact (flatten_holds layers (alone c child)).2 m member
  · exact Node.presents_select.mpr ⟨keptLabel.trans sameLabel, keptColumns ▸ sameNames, alone'⟩

/-! ### Aggregates over a group select -/

theorem groupAggregates_keepsResult : groupAggregates.KeepsResult := by
  intro label names n before
  have layers := Node.lacks_layerwise label
  refine before.mapUp (liftSelect_holds layers) fun q presents => ?_
  unfold liftSelect
  dsimp only
  split
  · rename_i source reads
    obtain ⟨here, named, below⟩ := Node.presents_select.mp presents
    obtain ⟨sameLabel, sameNames, alone⟩ := liftFrom_holds layers reads below
    exact Node.presents_select.mpr ⟨sameLabel.trans here, sameNames.trans named, alone⟩
  · exact presents

/-! ### All passes -/

theorem all_keepResult : ∀ pass ∈ all, pass.KeepsResult := by
  simp only [all, List.forall_mem_cons]
  exact ⟨flattenKeys_rule.keepsResult rfl, groupAggregates_keepsResult, unusedColumns_keepsResult,
    equalColumns_keepsResult, sources_keepsResult, flattenCall_rule.keepsResult rfl,
    simplifyConnective_rule.keepsResult rfl, expandComparison_rule.keepsResult rfl, foldLiteral_rule.keepsResult rfl,
    unwrapCall_rule.keepsResult rfl, simplifyConditional_rule.keepsResult rfl, expandMembership_rule.keepsResult rfl,
    fun _ member => absurd member List.not_mem_nil⟩

end Pass

namespace Pipeline

/-- The columns of the result stay, in their order. -/
theorem optimize_presents (p : Pipeline) (keep : ∀ pass ∈ p.passes, pass.KeepsResult) {n : Node}
    (before : n.Presents label names) : (p.optimize n).Presents label names :=
  p.optimize_keeps (fun pass member => keep pass member label names) before

end Pipeline

end QueryTree
