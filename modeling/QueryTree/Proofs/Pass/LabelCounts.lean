import Mathlib.Algebra.Order.BigOperators.Group.List
import Mathlib.Algebra.Order.Ring.Nat
import Mathlib.Data.List.Nodup
import QueryTree.Pass.Standard
import QueryTree.Proofs.Pass.Places

/-! How often a label is given.

A column that is inlined is written wherever it was referred to, the operand of a membership once for every item, and a
key of an entity as often as it meets a partner. What is written twice brings its tables and selects twice. Where none
of these holds a table or a select, no pass gives a label more often than it was given.
-/

set_option autoImplicit false

namespace QueryTree

namespace Shape

variable {α β : Type}

/-- The children that a pass may write more than once. -/
def copied : Shape α → List α
  | .select q => q.columns.map (·.expr)
  | .groupAggregate _ inGroup _ _ => [inGroup]
  | .object _ keys => keys.map (·.expr)
  | .call .isIn arguments _ => arguments.head?.toList
  | _ => []

theorem copied_map (f : α → β) (s : Shape α) : (s.map f).copied = s.copied.map f := by
  cases s with
  | call routine arguments type => cases routine <;> first | rfl | simp [copied, map, toList_map]
  | _ => simp [copied, map, Select.map, Binding.map]

theorem copied_child {s : Shape α} {c : α} (copied : c ∈ s.copied) : c ∈ s.children := by
  cases s with
  | select q =>
    obtain ⟨b, column, rfl⟩ := List.mem_map.mp copied
    exact Select.column_child column
  | groupAggregate label inGroup asQuery type =>
    obtain rfl := List.mem_singleton.mp copied
    exact List.mem_cons_self
  | object entity keys => exact copied
  | call routine arguments type =>
    cases routine with
    | isIn => exact List.mem_of_head? (Option.mem_toList.mp copied)
    | _ => cases copied
  | _ => cases copied

end Shape

namespace Node

variable {label : String} {n : Node} {s : Shape Node}

/-- How many tables and selects go by the label. -/
def bearers (label : String) (n : Node) : Nat := n.labels.count label

theorem bearers_mk (label : String) (s : Shape Node) : (Node.mk s).bearers label =
    (sourceLabel? (.mk s)).toList.count label + (s.children.map (bearers label)).sum := by
  unfold bearers
  rw [labels_mk, List.count_append, List.count_flatMap]
  rfl

theorem sourceLabel_map {α : Type} (f g : α → Node) (s : Shape α) :
    sourceLabel? (.mk (s.map f)) = sourceLabel? (.mk (s.map g)) := by
  cases s <;> rfl

theorem labels_nil : n.labels = [] ↔ ∀ label, n.bearers label = 0 := by
  simp only [bearers, List.count_eq_zero, List.eq_nil_iff_forall_not_mem]

/-- What a pass may write more than once holds no table and no select. -/
def Copyable (n : Node) : Prop := ∀ m ∈ n.subtrees, ∀ c ∈ m.shape.copied, c.labels = []

theorem copyable_mk : (Node.mk s).Copyable ↔ (∀ c ∈ s.copied, c.labels = []) ∧ ∀ c ∈ s.children, c.Copyable := by
  simp only [Copyable, subtrees_mk, List.forall_mem_cons, List.forall_mem_flatMap, shape_mk]

theorem Copyable.subtree {m : Node} (copyable : n.Copyable) (member : m ∈ n.subtrees) : m.Copyable :=
  fun k below => copyable k (subtrees_trans member below)

theorem copyable_both {a b : Node} (first : a.Copyable) (second : b.Copyable) : (Node.both a b).Copyable :=
  copyable_mk.mpr ⟨by simp [Shape.copied], by simpa [Shape.children] using ⟨first, second⟩⟩

/-- Gives no label more often than allowed. -/
structure Within (allowed : String → Nat) (n : Node) : Prop where
  copyable : n.Copyable
  few : ∀ label, n.bearers label ≤ allowed label

theorem Copyable.within (copyable : n.Copyable) : n.Within fun label => n.bearers label :=
  ⟨copyable, fun _ => Nat.le_refl _⟩

abbrev Bare (n : Node) : Prop := n.Within fun _ => 0

theorem Bare.within (bare : n.Bare) (allowed : String → Nat) : n.Within allowed :=
  ⟨bare.copyable, fun label => (bare.few label).trans (Nat.zero_le _)⟩

theorem Bare.bearers (bare : n.Bare) (label : String) : n.bearers label = 0 := Nat.le_zero.mp (bare.few label)

theorem bare_iff : n.Bare ↔ n.Copyable ∧ n.labels = [] :=
  ⟨fun bare => ⟨bare.copyable, labels_nil.mpr bare.bearers⟩,
    fun ⟨copyable, empty⟩ => ⟨copyable, fun label => Nat.le_of_eq (labels_nil.mp empty label)⟩⟩

theorem within_mk {allowed : String → Nat} : (Node.mk s).Within allowed ↔
    (∀ c ∈ s.copied, c.Bare) ∧ (∀ c ∈ s.children, c.Copyable) ∧
      ∀ label, (sourceLabel? (.mk s)).toList.count label + (s.children.map (bearers label)).sum ≤ allowed label := by
  constructor
  · rintro ⟨copyable, few⟩
    obtain ⟨none, below⟩ := copyable_mk.mp copyable
    exact ⟨fun c copied => bare_iff.mpr ⟨below c (Shape.copied_child copied), none c copied⟩, below,
      fun label => bearers_mk label s ▸ few label⟩
  · rintro ⟨bare, below, few⟩
    exact ⟨copyable_mk.mpr ⟨fun c copied => (bare_iff.mp (bare c copied)).2, below⟩,
      fun label => (bearers_mk label s).symm ▸ few label⟩

theorem unlabelled_operator (ordinary : s.isOrdinary = true) : sourceLabel? (.mk s) = none := by
  cases s <;> first | rfl | cases ordinary

theorem labels_operator (ordinary : s.isOrdinary = true) : (Node.mk s).labels = s.children.flatMap labels := by
  rw [labels_mk, unlabelled_operator ordinary]
  rfl

theorem sum_bearers (label : String) (ns : List Node) : (ns.map (bearers label)).sum = (ns.flatMap labels).count label :=
  List.count_flatMap.symm

theorem bearers_operator (ordinary : s.isOrdinary = true) (label : String) :
    (Node.mk s).bearers label = (s.children.map (bearers label)).sum := by
  rw [sum_bearers, ← labels_operator ordinary]
  rfl

theorem bare_parts : PartByPart Bare := by
  intro s ordinary
  have unlabelled := unlabelled_operator ordinary
  rw [Bare, within_mk, unlabelled]
  constructor
  · rintro ⟨-, below, few⟩ c child
    refine ⟨below c child, fun label => (List.le_sum_of_mem (List.mem_map_of_mem child)).trans ?_⟩
    simpa using few label
  · intro bare
    refine ⟨fun c copied => bare c (Shape.copied_child copied), fun c child => (bare c child).copyable, fun label => ?_⟩
    have none : ∀ c ∈ s.children, bearers label c = 0 := fun c child => (bare c child).bearers label
    simp [List.map_congr_left none]

theorem bare_column (c : Column) : (Node.column c).Bare :=
  bare_iff.mpr ⟨copyable_mk.mpr ⟨by simp [Shape.copied], by simp [Shape.children]⟩, by rw [labels_mk]; rfl⟩

theorem within_select {allowed : String → Nat} {q : Select Node} : (Node.select q).Within allowed ↔
    (∀ b ∈ q.columns, b.expr.Bare) ∧ (∀ c ∈ q.source.toList ++ q.clauses, c.Copyable) ∧
      ∀ label, [q.label].count label + ((q.source.toList ++ q.clauses).map (bearers label)).sum ≤ allowed label := by
  have columns (bare : ∀ b ∈ q.columns, b.expr.Bare) (label : String) :
      (q.children.map (bearers label)).sum = ((q.source.toList ++ q.clauses).map (bearers label)).sum := by
    have nothing : ∀ b ∈ q.columns, bearers label b.expr = 0 := fun b member => (bare b member).bearers label
    have split : q.children = q.columns.map (·.expr) ++ (q.source.toList ++ q.clauses) := by
      simp [Select.children, Select.clauses]
    rw [split, List.map_append, List.sum_append, List.map_map, Function.comp_def, List.map_congr_left nothing]
    simp
  rw [within_mk]
  simp only [Shape.copied, List.forall_mem_map]
  refine and_congr_right fun bare => and_congr ?_ (forall_congr' fun label => columns bare label ▸ Iff.rfl)
  simp only [Shape.children, Select.mem_children, List.mem_append, Option.mem_toList, Option.mem_def]
  refine ⟨fun below c rest => below c (.inr rest), fun below c child => ?_⟩
  rcases child with ⟨b, column, rfl⟩ | rest
  · exact (bare b column).copyable
  · exact below c rest

end Node

/-! ### Parts of what is rebuilt -/

namespace Pass

theorem keyParts_subtrees {n : Node} : ∀ p ∈ keyParts n, p ∈ n.subtrees := by
  induction n using Node.inductNode with
  | step s ih =>
    intro p part
    rw [keyParts_mk] at part
    split at part
    · obtain ⟨c, child, part⟩ := List.mem_flatMap.mp part
      exact Node.mem_subtrees_of_child child (ih c child p part)
    · obtain ⟨k, key, part⟩ := List.mem_flatMap.mp part
      exact Node.mem_subtrees_of_child (List.mem_map_of_mem key) (ih k.expr (List.mem_map_of_mem key) p part)
    · exact List.mem_singleton.mp part ▸ Node.self_mem_subtrees _

theorem keyParts_labels (n : Node) : (keyParts n).flatMap Node.labels = n.labels :=
  keyParts_flatMap (fun _ => Node.labels_mk _) (fun _ _ => (Node.labels_mk _).trans (List.flatMap_map ..)) n

theorem mergeFilters_bearers (label : String) (inner outer : Option Node) :
    ((mergeFilters inner outer).toList.map (Node.bearers label)).sum =
      (inner.toList.map (Node.bearers label)).sum + (outer.toList.map (Node.bearers label)).sum := by
  cases inner with
  | none => cases outer <;> simp [mergeFilters]
  | some i =>
    cases outer with
    | none => simp [mergeFilters]
    | some o =>
      have both : (Node.both i o).bearers label = i.bearers label + o.bearers label := by
        rw [Node.both, Node.ofBinary, Node.bearers_operator rfl]
        simp [Shape.children]
      simp [mergeFilters, both]

theorem mergeOrder_bearers (label : String) (outer inner : Select Node) :
    ((mergeOrder outer inner).map fun o => o.expr.bearers label).sum ≤
      (inner.orderBy.map fun o => o.expr.bearers label).sum + (outer.orderBy.map fun o => o.expr.bearers label).sum := by
  unfold mergeOrder
  split
  · exact Nat.le_add_left _ _
  · split
    · exact Nat.le_add_right _ _
    · exact Nat.zero_le _

end Pass

open Node

theorem Node.within_placement : Placement Within (fun _ => True) fun _ e => e.Bare where
  child fits child := ⟨_, ((within_mk.mp fits).2.1 _ child).within⟩
  layer {s} each allowed fits := by
    rw [within_mk] at fits ⊢
    simp only [Shape.children_map, Shape.copied_map, List.forall_mem_map, List.map_map] at fits ⊢
    obtain ⟨bare, below, few⟩ := fits
    have kept (p : Node × Node) (child : p ∈ s.children) : p.2.Within fun label => p.1.bearers label :=
      each p child _ (below p child).within
    refine ⟨fun p copied => each p (Shape.copied_child copied) _ (bare p copied), fun p child => (kept p child).copyable,
      fun label => le_trans (Nat.add_le_add (Nat.le_of_eq ?_) ?_) (few label)⟩
    · rw [sourceLabel_map]
    · exact List.sum_le_sum fun p child => (kept p child).few label
  sides {allowed kind left right condition} _ fits := by
    simp only [within_mk, Shape.copied, Shape.children, List.forall_mem_cons, List.map_cons, List.sum_cons] at fits ⊢
    obtain ⟨bare, ⟨onLeft, onRight, onCondition⟩, few⟩ := fits
    refine ⟨_, _, ⟨trivial, onLeft.within⟩, ⟨trivial, onRight.within⟩, fun left' right' first second =>
      ⟨bare, ⟨first.copyable, second.copyable, onCondition⟩, fun label => ?_⟩⟩
    refine le_trans (Nat.add_le_add (Nat.le_refl 0) ?_) (few label)
    have fewLeft := first.few label
    have fewRight := second.few label
    omega
  reads {allowed q source} fits reads := by
    obtain ⟨columns, below, few⟩ := within_select.mp fits
    rw [reads] at below few
    refine ⟨_, ⟨trivial, (below source (by simp)).within⟩, fun source' fits =>
      within_select.mpr ⟨columns, ?_, fun label => ?_⟩⟩
    · intro c member
      rcases List.mem_append.mp member with same | clause
      · exact (Option.mem_some.mp (Option.mem_toList.mp same)) ▸ fits.copyable
      · exact below c (List.mem_append_right _ clause)
    · have fewer := fits.few label
      have clauses : ({ q with source := some source' } : Select Node).clauses = q.clauses := rfl
      refine le_trans ?_ (few label)
      simp only [clauses, Option.toList_some, List.singleton_append, List.map_cons, List.sum_cons]
      omega
  column _ allowed _ := (bare_column _).within allowed
  fewer {q columns} sublist allowed fits := by
    obtain ⟨bare, rest⟩ := within_select.mp fits
    exact within_select.mpr ⟨fun b member => bare b (sublist.subset member), rest⟩
  measure name allowed _ := (bare_column _).within allowed
  declares {allowed q p source c e} fits _ _ inside form := by
    obtain ⟨asQuery, type, member⟩ := Placement.groupForms_mem form
    have whole : c.Copyable := (within_mk.mp fits).2.1 c (Select.lifted_child inside)
    have group := copyable_mk.mp (whole.subtree member)
    exact bare_iff.mpr ⟨group.2 e (by simp [Shape.children]), group.1 e (by simp [Shape.copied])⟩
  more {q extra} bare allowed fits := by
    obtain ⟨columns, rest⟩ := within_select.mp fits
    exact within_select.mpr ⟨fun b member => (List.mem_append.mp member).elim (columns b) (bare b), rest⟩
  merges {allowed q inner m} reads mapped mergeable fits := by
    obtain ⟨columns, below, few⟩ := within_select.mp fits
    obtain ⟨sources, filter, groups, order, skip, take⟩ := Select.forall_beside.mp below
    obtain ⟨-, declared, -⟩ := Mapping.ofSelect_some mapped
    obtain ⟨innerColumns, innerBelow, innerFew⟩ := within_select.mp (sources (.select inner) reads).within
    obtain ⟨innerSource, innerFilter, -, innerOrder, -, -⟩ := Select.forall_beside.mp innerBelow
    rw [reads] at few
    refine ⟨within_select.mpr ⟨columns, ?_, fun label => le_trans ?_ (few label)⟩, .of (fun b member c _ allowed _ => ?_)
      fun _ _ _ _ allowed _ => (bare_column _).within allowed⟩
    · refine Select.forall_beside.mpr ⟨innerSource, ?_, groups, fun o member => ?_, skip, take⟩
      · exact Pass.mergeFilters_holds copyable_both innerFilter filter
      · exact (Placement.mergeOrder_mem member).elim (order o) fun inherited => innerOrder o inherited.1
    -- Both selects give their labels once before, and all that is left of them stands in one select now.
    · have total := innerFew label
      have filters := Pass.mergeFilters_bearers label inner.filter q.filter
      have orders := Pass.mergeOrder_bearers label q inner
      simp only [Pass.merge, Select.clauses, List.map_append, List.sum_append, List.map_map, Function.comp_def,
        Option.toList_some, List.map_cons, List.map_nil, List.sum_cons, List.sum_nil] at *
      omega
    · exact (innerColumns b (declared b member).1).within allowed
  skips {allowed outerIsStar s source m} _ reads mapped _ fits := by
    obtain ⟨columns, below, few⟩ := within_select.mp fits
    rw [reads] at below few
    obtain ⟨-, declared, -⟩ := Mapping.ofSelect_some mapped
    refine ⟨⟨below source (by simp), fun label => le_trans ?_ (few label)⟩, .of (fun b member c _ allowed _ => ?_)
      fun _ _ _ _ allowed _ => (bare_column _).within allowed⟩
    · simp only [Option.toList_some, List.singleton_append, List.map_cons, List.sum_cons]
      omega
    -- Columns may come to stand in several places, but they are bare and give no label.
    · exact (columns b (declared b member).1).within allowed
  keys q allowed fits := by
    obtain ⟨columns, below, few⟩ := within_select.mp fits
    obtain ⟨sources, filter, groups, rest⟩ := Select.forall_beside.mp below
    refine within_select.mpr ⟨columns, Select.forall_beside.mpr ⟨sources, filter, fun g member => ?_, rest⟩,
      fun label => le_trans ?_ (few label)⟩
    · obtain ⟨key, inside, part⟩ := List.mem_flatMap.mp member
      exact (groups key inside).subtree (Pass.keyParts_subtrees g part)
    · have parts : ((q.groupBy.flatMap Pass.keyParts).map (bearers label)).sum = (q.groupBy.map (bearers label)).sum := by
        rw [sum_bearers, sum_bearers, List.flatMap_assoc, List.flatMap_congr fun c _ => Pass.keyParts_labels c]
      simp only [Select.clauses, List.map_append, List.sum_append, parts]
      exact Nat.le_refl _

/-! ### Rules -/

namespace Pass

theorem takes_bare {a b : Node} (bare : b.Bare) : TakesPlace Within a b := fun allowed _ => bare.within allowed

theorem takes_child {s : Shape Node} {c : Node} (child : c ∈ s.children) : TakesPlace Within (.mk s) c := by
  intro allowed fits
  obtain ⟨-, below, few⟩ := within_mk.mp fits
  have counted (label : String) := List.le_sum_of_mem (List.mem_map_of_mem (f := bearers label) child)
  exact ⟨below c child, fun label => ((counted label).trans (Nat.le_add_left _ _)).trans (few label)⟩

theorem takes_operator {s t : Shape Node} (ordinary : t.isOrdinary = true) (copied : t.copied = [])
    (copyable : (Node.mk s).Copyable → ∀ c ∈ t.children, c.Copyable)
    (few : ∀ label, (t.children.map (bearers label)).sum ≤ (Node.mk s).bearers label) :
    TakesPlace Within (.mk s) (.mk t) := by
  intro allowed fits
  refine ⟨copyable_mk.mpr ⟨by simp [copied], copyable fits.copyable⟩, fun label => ?_⟩
  rw [bearers_operator ordinary]
  exact (few label).trans (fits.few label)

theorem flattenCall_within (n : Node) : TakesPlace Within n (flattenCall n) := by
  unfold flattenCall
  split
  · rename_i routine arguments type
    split
    · rename_i associative
      have splicedLabels (c : Node) : (spliced routine c).flatMap labels = c.labels := by
        unfold spliced
        split
        · split
          · rename_i inner arguments type _
            exact (labels_operator (s := .call inner arguments type) rfl).symm
          · simp
        · simp
      have copied : (Shape.call routine (arguments.flatMap (spliced routine)) type).copied = [] := by
        cases routine <;> first | rfl | cases associative
      refine takes_operator rfl copied (fun copyable c child => ?_) fun label => ?_
      · obtain ⟨d, inside, part⟩ := List.mem_flatMap.mp child
        have whole : d.Copyable := (copyable_mk.mp copyable).2 d inside
        rcases spliced_mem part with rfl | ⟨_, _, rfl, listed⟩
        · exact whole
        · exact (copyable_mk.mp whole).2 c listed
      · rw [sum_bearers, Shape.children, List.flatMap_assoc, List.flatMap_congr fun c _ => splicedLabels c]
        exact Nat.le_of_eq (congrArg (List.count label) (labels_operator (s := .call routine arguments type) rfl).symm)
    · exact .refl _
  · exact .refl _

theorem unwrapCall_within (n : Node) : TakesPlace Within n (unwrapCall n) := by
  unfold unwrapCall
  split
  · exact takes_child (by simp [Shape.children])
  · exact takes_child (by simp [Shape.children])
  · split
    · exact takes_child (by simp [Shape.children])
    · exact .refl _
  · exact .refl _

theorem bare_constant (value : Value) (type : DataType) : (Node.constant value type).Bare := bare_parts.constant value type

theorem simplifyConnective_within (n : Node) : TakesPlace Within n (simplifyConnective n) := by
  have absorbed {s : Shape Node} {other : Node} (absorbing b : Bool) (child : other ∈ s.children) :
      TakesPlace Within (.mk s) (absorb absorbing b other) := by
    unfold absorb
    split
    · exact takes_bare (bare_constant _ _)
    · exact takes_child child
  unfold simplifyConnective
  split
  · split
    · exact absorbed _ _ (by simp [Shape.children])
    · exact absorbed _ _ (by simp [Shape.children])
    · exact .refl _
  · rename_i operand inner outer
    have once : TakesPlace Within (.unary .not (.unary .not operand inner) outer) (.unary .not operand inner) :=
      takes_child (by simp [Shape.children])
    exact once.trans (takes_child (by simp [Shape.children]))
  · split
    · exact takes_bare (bare_constant _ _)
    · exact .refl _
  · exact .refl _

theorem foldLiteral_within (n : Node) : TakesPlace Within n (foldLiteral n) := by
  unfold foldLiteral
  split
  · exact takes_bare (bare_constant _ _)
  · exact .refl _

theorem expandMembership_within (n : Node) : TakesPlace Within n (expandMembership n) := by
  unfold expandMembership
  split
  · rename_i operand items listType type
    cases found : membership? operand items with
    | none => exact .refl _
    | some made =>
      intro allowed fits
      have sought : operand.Bare := (within_mk.mp fits).1 operand (by simp [Shape.copied])
      exact (membership_part bare_parts sought made found).within allowed
  · exact .refl _

theorem bare_object {entity : String} {keys : List (Binding Node)}
    (fits : (Node.object entity keys).Copyable) : (Node.object entity keys).Bare :=
  bare_parts.object.mpr fun k key => (within_mk.mp fits.within).1 k.expr (List.mem_map_of_mem key)

theorem expandComparison_within (n : Node) : TakesPlace Within n (expandComparison n) := by
  unfold expandComparison
  split
  · rename_i op left right type
    split
    · cases found : compareEntities? op left right with
      | none => exact .refl _
      | some made =>
        intro allowed fits
        obtain ⟨-, below, -⟩ := within_mk.mp fits
        have onLeft : left.Copyable := below left (by simp [Shape.children])
        have onRight : right.Copyable := below right (by simp [Shape.children])
        exact (compareEntities_part bare_parts (fun _ _ same => same ▸ bare_object (same ▸ onLeft))
          (fun _ _ same => same ▸ bare_object (same ▸ onRight)) made found).within allowed
    · exact .refl _
  · exact .refl _

/-- Pruning leaves branches and results out, and takes none twice. -/
theorem pruneBranches_bearers (label : String) (otherwise : Option Node) (branches : List (Branch Node)) :
    (((pruneBranches otherwise branches).1.flatMap Branch.children ++ (pruneBranches otherwise branches).2.toList).map
      (bearers label)).sum ≤ ((branches.flatMap Branch.children ++ otherwise.toList).map (bearers label)).sum := by
  induction branches with
  | nil => exact Nat.le_refl _
  | cons b rest ih =>
    unfold pruneBranches
    simp only [List.flatMap_cons, Branch.children, List.map_append, List.sum_append, List.map_cons, List.map_nil,
      List.sum_cons, List.sum_nil] at ih ⊢
    split
    · simp
      omega
    · omega
    · omega
    · simp only [List.flatMap_cons, List.map_append, List.sum_append, Branch.children, List.map_cons, List.map_nil,
        List.sum_cons, List.sum_nil]
      omega

theorem simplifyConditional_within (n : Node) : TakesPlace Within n (simplifyConditional n) := by
  unfold simplifyConditional
  split
  · rename_i branches otherwise type
    -- Branches are only dropped, never copied, so no label is borne more often than before.
    have fewer (label : String) := pruneBranches_bearers label otherwise branches
    obtain ⟨kept, left⟩ := pruneBranches_part otherwise branches
    have result : ∀ r ∈ (pruneBranches otherwise branches).2, r ∈ (Shape.conditional branches otherwise type).children := by
      intro r member
      rcases left r member with last | ⟨b, inside, rfl⟩
      · exact List.mem_append_right _ (Option.mem_toList.mpr last)
      · exact List.mem_append_left _ (List.mem_flatMap.mpr ⟨b, inside, by simp [Branch.children]⟩)
    split
    · split
      · rename_i r pruned
        exact takes_child (result r (by rw [pruned]; rfl))
      · exact takes_bare (bare_constant _ _)
      · rename_i kept' last _ _ pruned
        rw [pruned] at fewer kept result
        refine takes_operator rfl rfl (fun copyable => Shape.forall_conditional.mpr
          ⟨fun b member => ?_, fun r member => ?_⟩) fun label => ?_
        · exact (Shape.forall_conditional.mp (copyable_mk.mp copyable).2).1 b (kept b member)
        · exact (copyable_mk.mp copyable).2 r (result r member)
        · rw [bearers_operator rfl]
          exact fewer label
    · exact .refl _
  · exact .refl _

theorem rules_within : ∀ rule ∈ rules, ∀ n, TakesPlace Within n (rule n) := by
  intro rule member n
  simp only [rules, List.mem_cons, List.not_mem_nil, or_false] at member
  rcases member with rfl | rfl | rfl | rfl | rfl | rfl | rfl
  · exact flattenCall_within n
  · exact simplifyConnective_within n
  · exact expandComparison_within n
  · exact foldLiteral_within n
  · exact unwrapCall_within n
  · exact simplifyConditional_within n
  · exact expandMembership_within n

end Pass

namespace Pipeline

/-- Where nothing that passes copy holds a table or a select, no label is given more often than it was. -/
theorem optimize_bearers {n : Node} (copyable : n.Copyable) (label : String) :
    (standard.optimize n).bearers label ≤ n.bearers label :=
  (within_placement.optimize Pass.rules_within n _ copyable.within).few label

theorem optimize_distinct {n : Node} (copyable : n.Copyable) (distinct : n.labels.Nodup) :
    (standard.optimize n).labels.Nodup :=
  List.nodup_iff_count_le_one.mpr fun label =>
    (optimize_bearers copyable label).trans (List.nodup_iff_count_le_one.mp distinct label)

/-- A nested query that a column declares is written wherever the column is referred to. -/
theorem labels_multiplied :
    let most : Select Node :=
      { label := "q", columns := [⟨"v", .column ⟨"t1", "v", .int32⟩⟩], source := some (.table "U" "t1" .void) }
    let nested : Node := .subquery .scalar none (.select most) .int32
    let inner : Select Node := { label := "s1", columns := [⟨"k", nested⟩], source := some (.table "T" "t0" .void) }
    let k : Node := .column ⟨"s1", "k", .int32⟩
    let n : Node := .select { label := "s0", columns := [⟨"a", k⟩, ⟨"b", k⟩], source := some (.select inner) }
    n.labels.Nodup ∧ ¬ (standard.optimize n).labels.Nodup := by decide +kernel

end Pipeline

end QueryTree
