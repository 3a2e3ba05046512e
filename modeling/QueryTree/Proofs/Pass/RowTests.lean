import QueryTree.Pass.Standard
import QueryTree.Proofs.Pass.Places

/-! Aggregates and windows, which no pass moves to where rows are tested.

A filter, the condition of a join and a group key are told row by row. Nothing is measured there over many rows, and a
pass that puts the meaning of a column in place of a reference puts nothing there that is.
-/

set_option autoImplicit false

namespace QueryTree

/-! ### Where rows are tested -/

namespace Shape

variable {α β : Type}

/-- The children that are told of one row at a time. -/
def rowTests : Shape α → List α
  | .select q => q.filter.toList ++ q.groupBy
  | .join _ _ _ condition => condition.toList
  | .update u => u.filter.toList
  | .delete _ _ filter => filter.toList
  | .createIndex i => i.filter.toList
  | _ => []

/-- What is below has rows of its own. -/
def isScope : Shape α → Bool
  | .select _ | .subquery .. | .groupAggregate .. => true
  | _ => false

/-- Is told of many rows. -/
def isMeasure : Shape α → Bool
  | .aggregate .. | .window .. => true
  | _ => false

theorem rowTests_map (f : α → β) (s : Shape α) : (s.map f).rowTests = s.rowTests.map f := by
  cases s <;> simp [rowTests, map, Select.map, Update.map, CreateIndex.map, toList_map]

theorem isScope_map (f : α → β) (s : Shape α) : (s.map f).isScope = s.isScope := by cases s <;> rfl

theorem isMeasure_map (f : α → β) (s : Shape α) : (s.map f).isMeasure = s.isMeasure := by cases s <;> rfl

theorem rowTests_children {s : Shape α} {c : α} (test : c ∈ s.rowTests) : c ∈ s.children := by
  cases s with
  | select q =>
    rcases List.mem_append.mp test with filter | key
    · exact Select.filter_child (Option.mem_toList.mp filter)
    · exact Select.group_child key
  | join kind left right condition => exact List.mem_cons_of_mem _ (List.mem_cons_of_mem _ test)
  | update u => exact List.mem_append_right _ test
  | delete owner label filter => exact test
  | createIndex i => exact test
  | _ => cases test

end Shape

namespace Node

def measures : Node → Bool := fold fun s => s.isMeasure || !s.isScope && s.children.any id

theorem measures_mk (s : Shape Node) : (Node.mk s).measures = (s.isMeasure || !s.isScope && s.children.any measures) := by
  unfold measures
  rw [fold_mk, Shape.isMeasure_map, Shape.isScope_map, Shape.children_map, List.any_map]
  rfl

theorem measures_false {s : Shape Node} : (Node.mk s).measures = false ↔
    s.isMeasure = false ∧ (s.isScope = false → ∀ c ∈ s.children, c.measures = false) := by
  rw [measures_mk]
  cases s.isScope <;> simp

/-- Nothing is measured in a test of rows. -/
def TestsRows (n : Node) : Prop := ∀ m ∈ n.subtrees, ∀ c ∈ m.shape.rowTests, c.measures = false

instance (n : Node) : Decidable n.TestsRows := inferInstanceAs (Decidable (∀ m ∈ n.subtrees, ∀ c ∈ m.shape.rowTests, _))

theorem testsRows_mk {s : Shape Node} :
    (Node.mk s).TestsRows ↔ (∀ c ∈ s.rowTests, c.measures = false) ∧ ∀ c ∈ s.children, c.TestsRows := by
  simp only [TestsRows, subtrees_mk, List.forall_mem_cons, List.forall_mem_flatMap, shape_mk]

theorem TestsRows.subtree {n m : Node} (rows : n.TestsRows) (member : m ∈ n.subtrees) : m.TestsRows :=
  fun k below => rows k (subtrees_trans member below)

theorem aggregates_below {s : Shape Node} (none : (Node.mk s).aggregates = false) (inside : s.isScope = false) :
    s.kind ≠ .aggregate ∧ ∀ c ∈ s.children, c.aggregates = false := by
  have rest (s : Shape Node) : (s.map aggregates).children.any id = s.children.any aggregates := by
    rw [Shape.children_map, List.any_map]
    rfl
  rw [aggregates, fold_mk] at none
  cases s with
  | aggregate => cases none
  | select | subquery | groupAggregate => cases inside
  | _ => exact ⟨by simp [Shape.kind], by simpa using (rest _).symm.trans none⟩

theorem windows_below {s : Shape Node} (none : (Node.mk s).windows = false) (inside : s.isScope = false) :
    s.kind ≠ .window ∧ ∀ c ∈ s.children, c.windows = false := by
  have rest (s : Shape Node) : (s.map windows).children.any id = s.children.any windows := by
    rw [Shape.children_map, List.any_map]
    rfl
  rw [windows, fold_mk] at none
  cases s with
  | window => cases none
  | select | subquery | groupAggregate => cases inside
  | _ => exact ⟨by simp [Shape.kind], by simpa using (rest _).symm.trans none⟩

theorem measures_found {n : Node} (aggregates : n.aggregates = false) (windows : n.windows = false) :
    n.measures = false := by
  induction n using inductNode with
  | step s ih =>
    refine measures_false.mpr ⟨?_, fun inside c child => ?_⟩
    · by_cases inside : s.isScope = false
      · have notAggregate := (aggregates_below aggregates inside).1
        have notWindow := (windows_below windows inside).1
        cases s <;> first | rfl | exact absurd rfl notAggregate | exact absurd rfl notWindow
      · cases s <;> first | rfl | exact absurd rfl inside
    · exact ih c child ((aggregates_below aggregates inside).2 c child) ((windows_below windows inside).2 c child)

/-- Fit for a test of rows, or for any place. -/
def FitsRows (test : Bool) (n : Node) : Prop := n.TestsRows ∧ (test = true → n.measures = false)

theorem fitsRows_mk {test : Bool} {s : Shape Node} : (Node.mk s).FitsRows test ↔
    (∀ c ∈ s.children, c.FitsRows false) ∧ (∀ c ∈ s.rowTests, c.FitsRows true) ∧
      (test = true → s.isMeasure = false ∧ (s.isScope = false → ∀ c ∈ s.children, c.FitsRows true)) := by
  simp only [FitsRows, testsRows_mk, measures_false, Bool.false_eq_true, false_implies, and_true, true_implies]
  constructor
  · rintro ⟨⟨tests, below⟩, own⟩
    exact ⟨below, fun c test => ⟨below c (Shape.rowTests_children test), tests c test⟩,
      fun test => ⟨(own test).1, fun inside c child => ⟨below c child, (own test).2 inside c child⟩⟩⟩
  · rintro ⟨below, tests, own⟩
    exact ⟨⟨fun c test => (tests c test).2, below⟩,
      fun test => ⟨(own test).1, fun inside c child => ((own test).2 inside c child).2⟩⟩

theorem FitsRows.anywhere {test : Bool} {n : Node} (fits : n.FitsRows true) : n.FitsRows test :=
  ⟨fits.1, fun _ => fits.2 rfl⟩

theorem FitsRows.any {test : Bool} {n : Node} (fits : n.FitsRows test) : n.FitsRows false := ⟨fits.1, by simp⟩

theorem FitsRows.subtree {n m : Node} (fits : n.FitsRows false) (member : m ∈ n.subtrees) : m.FitsRows false :=
  ⟨fits.1.subtree member, by simp⟩

theorem fitsRows_select {test : Bool} {q : Select Node} : (Node.select q).FitsRows test ↔
    (∀ b ∈ q.columns, b.expr.FitsRows false) ∧ (∀ s ∈ q.source, s.FitsRows false) ∧ (∀ f ∈ q.filter, f.FitsRows true) ∧
      (∀ g ∈ q.groupBy, g.FitsRows true) ∧ (∀ o ∈ q.orderBy, o.expr.FitsRows false) ∧
      (∀ n ∈ q.skip, n.FitsRows false) ∧ ∀ n ∈ q.take, n.FitsRows false := by
  have scope : (Shape.select q).isScope = true := rfl
  have tests : (∀ c ∈ (Shape.select q).rowTests, c.FitsRows true) ↔
      (∀ f ∈ q.filter, f.FitsRows true) ∧ ∀ g ∈ q.groupBy, g.FitsRows true := by
    simp only [Shape.rowTests, List.forall_mem_append, Option.mem_toList, Option.mem_def]
  rw [fitsRows_mk, tests, scope]
  simp only [Shape.children, Select.forall_children, Shape.isMeasure, Bool.true_eq_false, false_implies,
    implies_true, and_true]
  constructor
  · rintro ⟨⟨columns, source, -, -, order, skip, take⟩, filter, groups⟩
    exact ⟨columns, source, filter, groups, order, skip, take⟩
  · rintro ⟨columns, source, filter, groups, order, skip, take⟩
    exact ⟨⟨columns, source, fun f member => (filter f member).any, fun g member => (groups g member).any, order, skip,
      take⟩, filter, groups⟩

theorem fitsRows_parts (test : Bool) : PartByPart (FitsRows test) := by
  intro s ordinary
  have nothing : s.rowTests = [] ∧ s.isMeasure = false ∧ s.isScope = false := by
    cases s <;> first | exact ⟨rfl, rfl, rfl⟩ | cases ordinary
  rw [fitsRows_mk, nothing.1, nothing.2.1, nothing.2.2]
  cases test with
  | false => simp
  | true =>
    simp only [List.not_mem_nil, false_implies, implies_true, true_and, true_implies]
    exact ⟨fun fits => fits.2, fun each => ⟨fun c child => (each c child).any, each⟩⟩

theorem fitsRows_column {test : Bool} (c : Column) : (Node.column c).FitsRows test := by
  rw [fitsRows_mk]
  simp [Shape.children, Shape.rowTests, Shape.isMeasure]

end Node

/-! ### What the passes put there -/

open Node in
theorem Node.fitsRows_placement : Placement FitsRows (· = false) fun _ e => e.FitsRows false where
  child fits child := ⟨false, (fitsRows_mk.mp fits).1 _ child⟩
  layer {s} each test fits := by
    rw [fitsRows_mk] at fits ⊢
    simp only [Shape.children_map, Shape.rowTests_map, Shape.isMeasure_map, Shape.isScope_map,
      List.forall_mem_map] at fits ⊢
    obtain ⟨below, tests, own⟩ := fits
    exact ⟨fun p child => each p child _ (below p child),
      fun p test => each p (Shape.rowTests_children test) _ (tests p test),
      fun test => ⟨(own test).1, fun inside p child => each p child _ ((own test).2 inside p child)⟩⟩
  sides {test kind left right condition} source fits := by
    subst source
    simp only [fitsRows_mk, Shape.children, Shape.rowTests, List.forall_mem_cons, Bool.false_eq_true, false_implies,
      and_true] at fits ⊢
    exact ⟨false, false, ⟨rfl, fits.1.1⟩, ⟨rfl, fits.1.2.1⟩,
      fun left' right' first second => ⟨⟨first, second, fits.1.2.2⟩, fits.2⟩⟩
  reads {test q source} fits reads := by
    obtain ⟨columns, sources, clauses⟩ := fitsRows_select.mp fits
    exact ⟨false, ⟨rfl, sources source reads⟩,
      fun source' fits => fitsRows_select.mpr ⟨columns, by simpa using fits, clauses⟩⟩
  column _ _ _ := fitsRows_column _
  fewer {q columns} sublist _ fits := by
    obtain ⟨each, rest⟩ := fitsRows_select.mp fits
    exact fitsRows_select.mpr ⟨fun b member => each b (sublist.subset member), rest⟩
  measure _ _ _ := fitsRows_column _
  declares {test q p source c e} fits _ _ inside form := by
    obtain ⟨asQuery, type, member⟩ := Placement.groupForms_mem form
    have whole : c.FitsRows false := (fitsRows_mk.mp fits).1 c (Select.lifted_child inside)
    exact (fitsRows_mk.mp (whole.subtree member)).1 e (by simp [Shape.children])
  more {q extra} declared _ fits := by
    obtain ⟨each, rest⟩ := fitsRows_select.mp fits
    exact fitsRows_select.mpr ⟨fun b member => (List.mem_append.mp member).elim (each b) (declared b), rest⟩
  merges {test q inner m} reads mapped mergeable fits := by
    obtain ⟨columns, sources, filter, groups, order, skip, take⟩ := fitsRows_select.mp fits
    obtain ⟨-, declared, -⟩ := Mapping.ofSelect_some mapped
    obtain ⟨innerColumns, innerSource, innerFilter, -, innerOrder, -, -⟩ := fitsRows_select.mp (sources _ reads)
    refine ⟨fitsRows_select.mpr ⟨columns, innerSource, ?_, groups, ?_, skip, take⟩, .of (fun b member c _ _ _ => ?_)
      fun _ _ _ _ _ _ => fitsRows_column _⟩
    · have both {a b : Node} (first : a.FitsRows true) (second : b.FitsRows true) : (Node.both a b).FitsRows true :=
        (fitsRows_parts true).binary.mpr ⟨first, second⟩
      exact Pass.mergeFilters_holds both innerFilter filter
    · intro o member
      rcases Placement.mergeOrder_mem member with own | inherited
      · exact order o own
      · exact innerOrder o inherited.1
    · obtain ⟨column, -⟩ := declared b member
      -- A column that aggregates or numbers rows keeps its select from being taken in.
      obtain ⟨aggregates, windows⟩ := Placement.canMerge_columns mergeable b column
      exact ⟨(innerColumns b column).1, fun _ => measures_found aggregates windows⟩
  skips {test outerIsStar s source m} isSource reads mapped passes fits := by
    subst isSource
    obtain ⟨-, declared, -⟩ := Mapping.ofSelect_some mapped
    refine ⟨(fitsRows_select.mp fits).2.1 source reads, .of (fun b member c _ _ _ => ?_)
      fun _ _ _ _ _ _ => fitsRows_column _⟩
    obtain ⟨column, named⟩ := declared b member
    obtain ⟨c, reference⟩ := Placement.passesThrough_columns passes b column named
    exact reference ▸ fitsRows_column c
  keys q _ fits := by
    obtain ⟨columns, source, filter, groups, rest⟩ := fitsRows_select.mp fits
    refine fitsRows_select.mpr ⟨columns, source, filter, fun g member => ?_, rest⟩
    obtain ⟨key, inside, member⟩ := List.mem_flatMap.mp member
    exact Pass.keyParts_part (fitsRows_parts true) (groups key inside) g member

/-- Where rows are tested by nothing that is told of many rows, no pass brings that about. -/
theorem Pipeline.optimize_testsRows {n : Node} (rows : n.TestsRows) : (Pipeline.standard.optimize n).TestsRows :=
  (Node.fitsRows_placement.optimize (fun rule member n test => Pass.rules_keep (Node.fitsRows_parts test) rule member n) n
    false ⟨rows, by simp⟩).1

/-- A test of a group's maximum stays outside the group, while the test around it moves in. -/
theorem Pipeline.optimize_overMaximum :
    let x (label : String) : Node := .column ⟨label, "x", .int32⟩
    let group : Select Node :=
      { label := "g", columns := [⟨"x", .aggregate .max (some (x "t0")) false .int32⟩]
        source := some (.table "T" "t0" .void), groupBy := [.column ⟨"t0", "y", .int32⟩] }
    let positive : Select Node :=
      { label := "s1", columns := [⟨"x", x "g"⟩], source := some (.select group)
        filter := some (.binary .gt (x "g") (.literal (.int32 0)) .boolean) }
    let n : Node := .select
      { label := "s0", columns := [⟨"x", x "s1"⟩], source := some (.select positive)
        filter := some (.binary .lt (x "s1") (.literal (.int32 9)) .boolean) }
    n.TestsRows ∧ (Pipeline.standard.optimize n).TestsRows := by
  intro x group positive n
  have rows : n.TestsRows := by decide +kernel
  exact ⟨rows, Pipeline.optimize_testsRows rows⟩

end QueryTree
