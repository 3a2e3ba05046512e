import Mathlib.Data.List.Nodup
import QueryTree.Proofs.Node.Parts
import QueryTree.Pass.Sources

/-! Labels that selects and tables of a tree go by.

Passes know the selects they change by their labels. What changes only selects of other labels leaves a select alone
that no other shares its label with.
-/

set_option autoImplicit false

namespace QueryTree

/-- The label that a layer goes by, or the one it refers to. -/
def Shape.label? {α : Type} : Shape α → Option String
  | .select q => some q.label
  | .table _ label _ => some label
  | .column c => some c.label
  | .groupAggregate label .. => some label
  | _ => none

namespace Node

variable {label : String} {names : List String}

/-- What the tables and the selects of a tree go by. -/
def labels (n : Node) : List String := n.subtrees.filterMap sourceLabel?

/-- The selects of a tree, nested ones included. -/
def queries (n : Node) : List (Select Node) := n.subtrees.filterMap select?

theorem queries_mk (s : Shape Node) : (Node.mk s).queries = (select? (.mk s)).toList ++ s.children.flatMap queries := by
  unfold queries
  rw [subtrees_mk, List.filterMap_cons, List.filterMap_flatMap]
  cases select? (.mk s) <;> rfl

theorem mem_queries {n : Node} {q : Select Node} : q ∈ n.queries ↔ .select q ∈ n.subtrees := by
  rw [queries, List.mem_filterMap]
  constructor
  · rintro ⟨⟨s⟩, member, selected⟩
    cases s <;> cases selected
    exact member
  · exact fun member => ⟨_, member, rfl⟩

/-- Where the labels of selects are distinct, a label tells the select. -/
theorem query_unique {n : Node} (distinct : (n.queries.map (·.label)).Nodup) {p q : Select Node}
    (first : .select p ∈ n.subtrees) (second : .select q ∈ n.subtrees) (same : p.label = q.label) : p = q :=
  List.inj_on_of_nodup_map distinct (mem_queries.mpr first) (mem_queries.mpr second) same

theorem queries_labels (n : Node) : (n.queries.map (·.label)).Sublist n.labels := by
  unfold queries labels
  induction n.subtrees with
  | nil => exact .slnil
  | cons m rest ih =>
    obtain ⟨s⟩ := m
    cases s with
    | select q => exact ih.cons_cons q.label
    | table name label type => exact ih.cons label
    | _ => exact ih

/-! ### Labels that no select goes by -/

def Lacks (label : String) (n : Node) : Prop := ∀ q, .select q ∈ n.subtrees → q.label ≠ label

theorem lacks_mk {s : Shape Node} :
    (Node.mk s).Lacks label ↔ (∀ q, s = .select q → q.label ≠ label) ∧ ∀ c ∈ s.children, c.Lacks label := by
  simp only [Lacks, subtrees_mk, List.mem_cons, List.mem_flatMap]
  constructor
  · intro lacks
    exact ⟨fun q same => lacks q (.inl (congrArg Node.mk same.symm)),
      fun c child q member => lacks q (.inr ⟨c, child, member⟩)⟩
  · rintro ⟨here, below⟩ q (same | ⟨c, child, member⟩)
    · exact here q (Node.mk.inj same).symm
    · exact below c child q member

theorem lacks_select {q : Select Node} :
    (Node.select q).Lacks label ↔ q.label ≠ label ∧ ∀ c ∈ q.children, c.Lacks label := by
  rw [lacks_mk]
  exact and_congr_left fun _ => ⟨fun here => here q rfl, by rintro here p ⟨⟩; exact here⟩

theorem lacks_other {s : Shape Node} (notSelect : s.kind ≠ .select) :
    (Node.mk s).Lacks label ↔ ∀ c ∈ s.children, c.Lacks label := by
  rw [lacks_mk]
  exact and_iff_right (by rintro q rfl; exact absurd rfl notSelect)

theorem lacks_partByPart (label : String) : PartByPart (Lacks label) := by
  intro s ordinary
  exact lacks_other (by rintro same; cases s <;> first | cases ordinary; done | cases same)

theorem lacks_column (c : Column) : (Node.column c).Lacks label :=
  (lacks_other (by simp [Shape.kind])).mpr fun _ member => absurd member List.not_mem_nil

theorem Lacks.child {s : Shape Node} {c : Node} (lacks : (Node.mk s).Lacks label) (child : c ∈ s.children) :
    c.Lacks label := (lacks_mk.mp lacks).2 c child

theorem Lacks.map {s : Shape Node} {f : Node → Node} (before : (Node.mk s).Lacks label)
    (each : ∀ c ∈ s.children, (f c).Lacks label) : (Node.mk (s.map f)).Lacks label := by
  rw [lacks_mk, Shape.children_map, List.forall_mem_map]
  refine ⟨fun q same => ?_, each⟩
  cases s with
  | select p =>
    cases same
    exact (lacks_select.mp before).1
  | _ => cases same

theorem Lacks.mapUp {rule : Node → Node} (each : ∀ m : Node, m.Lacks label → (rule m).Lacks label) {n : Node}
    (before : n.Lacks label) : (n.mapUp rule).Lacks label := by
  induction n using inductNode with
  | step s ih =>
    rw [mapUp_mk]
    exact each _ (before.map fun c child => ih c child (before.child child))

/-- The select of the label presents columns of these names, and no other in the tree goes by the label. -/
def Presents (label : String) (names : List String) (n : Node) : Prop :=
  ∃ q, n = .select q ∧ q.label = label ∧ q.columns.map (·.name) = names ∧ ∀ c ∈ q.children, c.Lacks label

theorem presents_select {q : Select Node} : (Node.select q).Presents label names ↔
    q.label = label ∧ q.columns.map (·.name) = names ∧ ∀ c ∈ q.children, c.Lacks label :=
  ⟨by rintro ⟨p, ⟨⟩, holds⟩; exact holds, fun holds => ⟨q, rfl, holds⟩⟩

theorem labels_mk (s : Shape Node) :
    (Node.mk s).labels = (sourceLabel? (.mk s)).toList ++ s.children.flatMap labels := by
  unfold labels
  rw [subtrees_mk, List.filterMap_cons, List.filterMap_flatMap]
  cases sourceLabel? (.mk s) <;> rfl

/-- Where the labels of selects are distinct, a select presents its columns. -/
theorem presents_root {q : Select Node} (distinct : ((Node.select q).queries.map (·.label)).Nodup) :
    (Node.select q).Presents q.label (q.columns.map (·.name)) := by
  rw [queries_mk] at distinct
  have others := (List.nodup_cons.mp distinct).1
  apply presents_select.mpr ⟨rfl, rfl, _⟩
  intro c child p inside same
  exact others (List.mem_map.mpr ⟨p, List.mem_flatMap.mpr ⟨c, child, mem_queries.mpr inside⟩, same⟩)

theorem presents_self {q : Select Node} (distinct : (Node.select q).labels.Nodup) :
    (Node.select q).Presents q.label (q.columns.map (·.name)) :=
  presents_root (distinct.sublist (queries_labels _))

theorem Presents.map {q : Select Node} {f : Node → Node} (before : (Node.select q).Presents label names)
    (each : ∀ c : Node, c.Lacks label → (f c).Lacks label) : (Node.select (q.map f)).Presents label names := by
  obtain ⟨sameLabel, sameNames, alone⟩ := presents_select.mp before
  refine presents_select.mpr ⟨sameLabel, (Select.names_map q f).trans sameNames, ?_⟩
  simpa only [Select.children_map, List.forall_mem_map] using fun c child => each c (alone c child)

theorem Presents.mapUp {rule : Node → Node} (each : ∀ m : Node, m.Lacks label → (rule m).Lacks label)
    (onSelect : ∀ q, (Node.select q).Presents label names → (rule (.select q)).Presents label names) {n : Node}
    (before : n.Presents label names) : (n.mapUp rule).Presents label names := by
  obtain ⟨q, rfl, holds⟩ := before
  rw [mapUp_mk]
  exact onSelect _ (Presents.map ⟨q, rfl, holds⟩ fun _ => Lacks.mapUp each)

/-! ### Sources -/

theorem sourceSelects_mem {n : Node} {s : Select Node} (member : s ∈ n.sourceSelects) : .select s ∈ n.subtrees := by
  induction n using inductNode with
  | step shape ih =>
    cases shape with
    | select q =>
      obtain rfl := List.mem_singleton.mp member
      exact self_mem_subtrees _
    | join kind left right condition =>
      rcases List.mem_append.mp member with inLeft | inRight
      · exact mem_subtrees_of_child (by simp [Shape.children]) (ih left (by simp [Shape.children]) inLeft)
      · exact mem_subtrees_of_child (by simp [Shape.children]) (ih right (by simp [Shape.children]) inRight)
    | _ => exact absurd member List.not_mem_nil

theorem subtrees_trans {a b c : Node} (first : b ∈ a.subtrees) (second : c ∈ b.subtrees) : c ∈ a.subtrees := by
  induction a using Node.inductNode with
  | step s ih =>
    rw [subtrees_mk] at first
    rcases List.mem_cons.mp first with rfl | below
    · exact second
    · obtain ⟨child, member, below⟩ := List.mem_flatMap.mp below
      exact mem_subtrees_of_child member (ih child member below)

theorem Lacks.subtree {n m : Node} (lacks : n.Lacks label) (member : m ∈ n.subtrees) : m.Lacks label :=
  fun q inside => lacks q (subtrees_trans member inside)

end Node

end QueryTree
