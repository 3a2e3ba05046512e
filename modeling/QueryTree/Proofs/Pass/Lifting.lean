import Mathlib.Data.List.Nodup
import Mathlib.Data.List.Perm.Subperm
import QueryTree.Proofs.Node.Erasure
import QueryTree.Proofs.Pass.Places

/-! What becomes of the aggregates over the groups that a select reads from.

Lifting goes through the clauses of a select with the columns added so far. Whatever is added later, the names that were
given stay, so what a clause becomes is told by the columns at the end: every aggregate over a source refers to the
column there that is by its form, the only one of its name.

This is so as long as the source lacks a column for one of the aggregates. If it has one for each of them, the select is
left as it was, and its aggregates stay.
-/

set_option autoImplicit false

namespace QueryTree

/-! ### Names -/

namespace Pass

theorem candidate_injective : Function.Injective candidate := by
  intro a b same
  have digits : (toString a).toList = (toString b).toList := by
    have whole : "__agg".toList ++ (toString a).toList = "__agg".toList ++ (toString b).toList := by
      simpa [candidate] using congrArg String.toList same
    exact List.append_cancel_left whole
  simp only [Nat.toString_eq_repr, Nat.toList_repr] at digits
  simpa using congrArg (fun digits => Nat.ofDigitChars 10 digits 0) digits

/-- Among one more candidates than there are names one is free. -/
theorem freshName_fresh (taken : List String) (start : Nat) : freshName taken start ∉ taken := by
  unfold freshName
  generalize listed : (List.range (taken.length + 1)).map (fun i => candidate (start + i)) = candidates
  cases found : candidates.find? (fun name => !taken.contains name) with
  | some name => simpa using List.find?_some found
  | none =>
    -- Otherwise all of them are taken, and they are more than the names.
    have all : candidates ⊆ taken := fun name member => by simpa using List.find?_eq_none.mp found name member
    have distinct : candidates.Nodup := by
      rw [← listed]
      apply List.nodup_range.map
      exact candidate_injective.comp fun _ _ => Nat.add_left_cancel
    have few := (List.subperm_of_subset distinct all).length_le
    rw [← listed, List.length_map, List.length_range] at few
    omega

theorem freshName_candidate (taken : List String) (start : Nat) : ∃ n, freshName taken start = candidate n := by
  unfold freshName
  cases found : ((List.range (taken.length + 1)).map fun i => candidate (start + i)).find? (fun name =>
    !taken.contains name) with
  | some name =>
    obtain ⟨i, -, rfl⟩ := List.mem_map.mp (List.mem_of_find?_eq_some found)
    exact ⟨start + i, rfl⟩
  | none => exact ⟨start, rfl⟩

end Pass

/-! ### What is asked of the groups -/

/-- How the columns by the forms that aggregates have inside a group are called, told by the label of the group. -/
abbrev ColumnNames := String → Node → Option String

namespace Node

/-- The forms of the aggregates at its own level over groups of the labels, of one inside another the outer one only. -/
def asked (labels : List String) : Node → List (String × Node) :=
  para fun
    | .groupAggregate label inGroup asQuery _ =>
      if label ∈ labels then [(label, inGroup.1)] else inGroup.2 ++ asQuery.2
    | .select _ | .subquery .. => []
    | s => s.children.flatMap Prod.snd

/-- With columns in place of the aggregates that there are names for. -/
def referring (names : ColumnNames) : Node → Node :=
  para fun s =>
    match s with
    | .groupAggregate label inGroup asQuery type =>
      match names label inGroup.1 with
      | some name => .column ⟨label, name, type⟩
      | none => .groupAggregate label inGroup.2 asQuery.2 type
    | .select _ | .subquery .. => .mk (s.map Prod.fst)
    | s => .mk (s.map Prod.snd)

/-- A layer that has the aggregates at its own level below it, if any. -/
def Passed {α : Type} (s : Shape α) : Prop := s.kind ∉ [Kind.groupAggregate, .select, .subquery]

/-- Induction on what stands at its own level. -/
theorem inductLevel {P : Node → Prop}
    (aggregate : ∀ label inGroup asQuery type, P inGroup → P asQuery → P (.groupAggregate label inGroup asQuery type))
    (select : ∀ q, P (.select q)) (subquery : ∀ kind operand query type, P (.subquery kind operand query type))
    (passed : ∀ s : Shape Node, Passed s → (∀ c ∈ s.children, P c) → P (.mk s)) (n : Node) : P n := by
  induction n using inductNode with
  | step s ih =>
    cases s with
    | groupAggregate label inGroup asQuery type =>
      exact aggregate label inGroup asQuery type (ih inGroup (by simp [Shape.children])) (ih asQuery (by simp [Shape.children]))
    | select q => exact select q
    | subquery kind operand query type => exact subquery kind operand query type
    | _ => exact passed _ (by simp [Passed, Shape.kind]) ih

section Level

variable {names : ColumnNames} {labels : List String}

@[simp] theorem asked_aggregate (label : String) (inGroup asQuery : Node) (type : DataType) :
    (Node.groupAggregate label inGroup asQuery type).asked labels =
      if label ∈ labels then [(label, inGroup)] else inGroup.asked labels ++ asQuery.asked labels := para_mk _ _

@[simp] theorem asked_select (q : Select Node) : (Node.select q).asked labels = [] := para_mk _ _

@[simp] theorem asked_subquery (kind : SubqueryKind) (operand : Option Node) (query : Node) (type : DataType) :
    (Node.subquery kind operand query type).asked labels = [] := para_mk _ _

theorem asked_passed {s : Shape Node} (passed : Passed s) :
    (Node.mk s).asked labels = s.children.flatMap (asked labels) := by
  have rest : (s.map fun c => (c, c.asked labels)).children.flatMap Prod.snd = s.children.flatMap (asked labels) := by
    rw [Shape.children_map, List.flatMap_map]
  rw [← rest]
  refine (para_mk _ s).trans ?_
  cases s <;> first | rfl | simp [Passed, Shape.kind] at passed

@[simp] theorem referring_aggregate (label : String) (inGroup asQuery : Node) (type : DataType) :
    (Node.groupAggregate label inGroup asQuery type).referring names =
      match names label inGroup with
      | some name => .column ⟨label, name, type⟩
      | none => .groupAggregate label (inGroup.referring names) (asQuery.referring names) type := para_mk _ _

@[simp] theorem referring_select (q : Select Node) : (Node.select q).referring names = .select q :=
  (para_mk _ _).trans (congrArg mk ((Shape.map_map Prod.fst _ (.select q)).trans (Shape.map_id _)))

@[simp] theorem referring_subquery (kind : SubqueryKind) (operand : Option Node) (query : Node) (type : DataType) :
    (Node.subquery kind operand query type).referring names = .subquery kind operand query type :=
  (para_mk _ _).trans (congrArg mk ((Shape.map_map Prod.fst _ (.subquery kind operand query type)).trans (Shape.map_id _)))

theorem referring_passed {s : Shape Node} (passed : Passed s) :
    (Node.mk s).referring names = .mk (s.map (referring names)) := by
  have rest : (s.map fun c => (c, c.referring names)).map Prod.snd = s.map (referring names) := Shape.map_map _ _ s
  rw [← rest]
  refine (para_mk _ s).trans ?_
  cases s <;> first | rfl | simp [Passed, Shape.kind] at passed

theorem groupForms_passed {s : Shape Node} (passed : Passed s) :
    (Node.mk s).groupForms = s.children.flatMap groupForms := by
  rw [Placement.groupForms_mk]
  cases s <;> first | rfl | simp [Passed, Shape.kind] at passed

theorem groupForms_referring {n : Node} (found : ∀ form ∈ n.asked labels, ∃ name, names form.1 form.2 = some name) :
    ∀ form ∈ (n.referring names).groupForms, form.1 ∉ labels := by
  induction n using inductLevel with
  | aggregate label inGroup asQuery type first second =>
    rw [referring_aggregate]
    rw [asked_aggregate] at found
    split
    · simp [Placement.groupForms_mk, Shape.children]
    -- No column has the form. It was not asked for then, so its group is none of those lifted.
    · rename_i none
      split at found
      · simp [none] at found
      · rename_i other
        rw [List.forall_mem_append] at found
        simp only [Placement.groupForms_mk, List.forall_mem_cons, List.forall_mem_append]
        exact ⟨other, first found.1, second found.2⟩
  | select q => simp [Placement.groupForms_mk]
  | subquery kind operand query type => simp [Placement.groupForms_mk]
  | passed s passed ih =>
    rw [asked_passed passed] at found
    rw [referring_passed passed, groupForms_passed (by rwa [Passed, Shape.kind_map]), Shape.children_map]
    intro form member
    obtain ⟨_, changed, inside⟩ := List.mem_flatMap.mp member
    obtain ⟨c, child, rfl⟩ := List.mem_map.mp changed
    exact ih c child (fun form asked => found form (List.mem_flatMap.mpr ⟨c, child, asked⟩)) form inside

end Level

end Node

namespace Select

def ownExprs (q : Select Node) : List Node :=
  q.columns.map (·.expr) ++ (q.filter.toList ++ (q.groupBy ++ q.orderBy.map (·.expr)))

def asked (labels : List String) (q : Select Node) : List (String × Node) := q.ownExprs.flatMap (Node.asked labels)

def referring (names : ColumnNames) (q : Select Node) : Select Node :=
  { q with
    columns := q.columns.map (·.map (Node.referring names))
    filter := q.filter.map (Node.referring names)
    groupBy := q.groupBy.map (Node.referring names)
    orderBy := q.orderBy.map (·.map (Node.referring names)) }

theorem ownExprs_child {q : Select Node} {c : Node} (own : c ∈ q.ownExprs) : c ∈ q.children := by
  simp only [ownExprs, List.mem_append, List.mem_map, Option.mem_toList] at own
  rcases own with ⟨b, column, rfl⟩ | filter | group | ⟨o, order, rfl⟩
  · exact column_child column
  · exact filter_child filter
  · exact group_child group
  · exact order_child order

theorem ownExprs_map (f : Node → Node) (q : Select Node) : (q.map f).ownExprs = q.ownExprs.map f := by
  simp [ownExprs, Select.map, Binding.map, OrderItem.map, Shape.toList_map, Function.comp_def]

theorem ownExprs_referring (names : ColumnNames) (q : Select Node) :
    (q.referring names).ownExprs = q.ownExprs.map (Node.referring names) := ownExprs_map _ q

end Select

/-! ### One lift after another -/

namespace Pass

variable {groups : List (Select Node)}

/-- How the columns of the groups are called, those that were added included. -/
def columnName? (groups : List (Select Node)) (added : Additions) : ColumnNames := fun label form =>
  (groupNamed? groups label).bind fun group =>
    ((group.columns ++ Additions.of added label).find? (·.expr == form)).map (·.name)

/-- No group has two columns of a name, and no form was added twice. -/
structure Distinct (groups : List (Select Node)) (added : Additions) : Prop where
  names {label : String} {group : Select Node} (found : groupNamed? groups label = some group) :
    ((group.columns ++ Additions.of added label).map (·.name)).Nodup
  forms : (added.map fun a => (a.1, a.2.expr)).Nodup

/-- A column of a group by one of the forms, which had none before, called as added columns are. -/
structure New (groups : List (Select Node)) (forms : List (String × Node)) (a : String × Binding Node) : Prop where
  asked : (a.1, a.2.expr) ∈ forms
  lacked : columnName? groups [] a.1 a.2.expr = none
  named : ∃ n, a.2.name = candidate n

/-- A computation that adds columns for the forms, those that have none, and answers by how all are called then. -/
structure Lifts {β : Type} (groups : List (Select Node)) (forms : List (String × Node)) (answer : ColumnNames → β)
    (x : StateM Additions β) : Prop where
  grows (added : Additions) : added <+: (x added).2
  finds (added : Additions) : ∀ form ∈ forms, ∃ name, columnName? groups (x added).2 form.1 form.2 = some name
  /-- Columns that are added later change nothing about the answer. -/
  answers (added : Additions) {later : Additions} (since : (x added).2 <+: later) :
    (x added).1 = answer (columnName? groups later)
  adds (added : Additions) : ∀ a ∈ (x added).2, a ∈ added ∨ New groups forms a
  distinct (added : Additions) (before : Distinct groups added) : Distinct groups (x added).2

theorem Additions.of_append (added more : Additions) (label : String) :
    of (added ++ more) label = of added label ++ of more label := by simp [of]

theorem columnName_grows {added later : Additions} {label : String} {form : Node} {name : String}
    (since : added <+: later) (called : columnName? groups added label form = some name) :
    columnName? groups later label form = some name := by
  obtain ⟨more, rfl⟩ := since
  obtain ⟨group, found, called⟩ := Option.bind_eq_some_iff.mp called
  obtain ⟨b, first, rfl⟩ := Option.map_eq_some_iff.mp called
  simp only [columnName?, found, Option.bind_some, Additions.of_append, ← List.append_assoc]
  rw [List.find?_append, first]
  rfl

namespace Lifts

variable {α β γ : Type} {forms more : List (String × Node)}

theorem pure (b : β) : Lifts groups [] (fun _ => b) (Pure.pure b) where
  grows _ := List.prefix_refl _
  finds _ := by simp
  answers _ _ _ := rfl
  adds _ _ member := .inl member
  distinct _ before := before

theorem bind {x : StateM Additions β} {f : β → StateM Additions γ} {first : ColumnNames → β}
    {second : β → ColumnNames → γ} (here : Lifts groups forms first x) (rest : ∀ b, Lifts groups more (second b) (f b)) :
    Lifts groups (forms ++ more) (fun names => second (first names) names) (x >>= f) where
  grows added := (here.grows added).trans ((rest _).grows _)
  finds added form member := by
    rcases List.mem_append.mp member with before | after
    · obtain ⟨name, called⟩ := here.finds added form before
      exact ⟨name, columnName_grows ((rest _).grows _) called⟩
    · exact (rest _).finds _ form after
  answers added later since := by
    rw [← here.answers added (((rest _).grows _).trans since)]
    exact (rest _).answers _ since
  adds added a member := by
    rcases (rest _).adds _ a member with before | new
    · apply (here.adds added a before).imp_right
      exact fun new => { new with asked := List.mem_append_left _ new.asked }
    · exact .inr { new with asked := List.mem_append_right _ new.asked }
  distinct added before := (rest _).distinct _ (here.distinct added before)

theorem map {x : StateM Additions β} {first : ColumnNames → β} (h : β → γ) (here : Lifts groups forms first x) :
    Lifts groups forms (fun names => h (first names)) (h <$> x) where
  grows := here.grows
  finds := here.finds
  answers added _ since := congrArg h (here.answers added since)
  adds := here.adds
  distinct := here.distinct

theorem listM {f : α → StateM Additions β} {asks : α → List (String × Node)} {answer : ColumnNames → α → β} {l : List α}
    (each : ∀ a ∈ l, Lifts groups (asks a) (answer · a) (f a)) :
    Lifts groups (l.flatMap asks) (fun names => l.map (answer names)) (l.mapM f) := by
  induction l with
  | nil => simpa using pure []
  | cons a rest ih =>
    rw [List.mapM_cons, List.flatMap_cons]
    have below := ih fun c member => each c (by simp [member])
    have here (b : β) : Lifts groups (rest.flatMap asks) (fun names => b :: rest.map (answer names))
        (List.cons b <$> rest.mapM f) := below.map (b :: ·)
    simpa using bind (each a (by simp)) here

theorem optionM {f : α → StateM Additions β} {asks : α → List (String × Node)} {answer : ColumnNames → α → β}
    {o : Option α} (each : ∀ a ∈ o, Lifts groups (asks a) (answer · a) (f a)) :
    Lifts groups (o.toList.flatMap asks) (fun names => o.map (answer names)) (o.mapM f) := by
  cases o with
  | none => exact pure none
  | some a => simpa using (each a rfl).map some

theorem traverse {f : Node → StateM Additions Node} {asks : Node → List (String × Node)}
    {answer : ColumnNames → Node → Node} {s : Shape Node}
    (each : ∀ c ∈ s.children, Lifts groups (asks c) (answer · c) (f c)) :
    Lifts groups (s.children.flatMap asks) (fun names => s.map (answer names)) (s.traverse f) := by
  have children := listM each
  have state (added : Additions) : (s.traverse f added).2 = (s.children.mapM f added).2 :=
    congrArg (fun c => (c added).2) (Shape.children_traverse f s)
  constructor
  case answers =>
    intro added later since
    obtain ⟨-, members⟩ := Shape.run_traverse (· <+: ·) List.prefix_refl List.IsPrefix.trans f s
      (fun c child => (each c child).grows) added
    -- Each child is answered with the columns of its turn; the columns at the end tell the same.
    have told : ∀ p ∈ (s.replaced f added).children, p.2 = answer (columnName? groups later) p.1 := by
      intro p member
      obtain ⟨child, before, -, given, after⟩ := members p member
      rw [given]
      exact (each p.1 child).answers before (after.trans since)
    calc (s.traverse f added).1 = (s.replaced f added).map Prod.snd := (Shape.replaced_snd f s added).symm
      _ = (s.replaced f added).map (fun p => answer (columnName? groups later) p.1) := Shape.map_congr told
      _ = ((s.replaced f added).map Prod.fst).map (answer (columnName? groups later)) := (Shape.map_map _ _ _).symm
      _ = s.map (answer (columnName? groups later)) := by rw [Shape.replaced_fst]
  all_goals
    intro added
    rw [state]
  · exact children.grows added
  · exact children.finds added
  · exact children.adds added
  · exact children.distinct added

theorem answering {x : StateM Additions β} {answer answer' : ColumnNames → β} (here : Lifts groups forms answer x)
    (same : ∀ later, (∀ form ∈ forms, ∃ name, columnName? groups later form.1 form.2 = some name) →
      answer (columnName? groups later) = answer' (columnName? groups later)) : Lifts groups forms answer' x where
  grows := here.grows
  finds := here.finds
  answers added later since := by
    rw [here.answers added since]
    apply same
    intro form member
    obtain ⟨name, called⟩ := here.finds added form member
    exact ⟨name, columnName_grows since called⟩
  adds := here.adds
  distinct := here.distinct

end Lifts

theorem groupNamed_none {label : String} : groupNamed? groups label = none ↔ label ∉ groups.map (·.label) := by
  simp only [groupNamed?, List.find?_eq_none, List.mem_reverse, beq_iff_eq, List.mem_map, not_exists, not_and]

theorem Additions.of_single (label : String) (b : Binding Node) : of [(label, b)] label = [b] := by simp [of]

theorem Additions.of_other {label other : String} (differs : other ≠ label) (b : Binding Node) :
    of [(label, b)] other = [] := by simp [of, differs.symm]

section ColumnFor

variable {group : Select Node} {form : Node} (found : groupNamed? groups group.label = some group)

include found

theorem columnName_group (added : Additions) : columnName? groups added group.label form =
    ((group.columns ++ Additions.of added group.label).find? (·.expr == form)).map (·.name) := by
  simp only [columnName?, found, Option.bind_some]

theorem columnName_absent {added : Additions} : columnName? groups added group.label form = none ↔
    ∀ b ∈ group.columns ++ Additions.of added group.label, b.expr ≠ form := by
  simp only [columnName_group found, Option.map_eq_none_iff, List.find?_eq_none, beq_iff_eq, ne_eq]

theorem columnName_added {added : Additions} (absent : columnName? groups added group.label form = none)
    (name : String) : columnName? groups (added ++ [(group.label, ⟨name, form⟩)]) group.label form = some name := by
  rw [columnName_group found, Option.map_eq_none_iff] at absent
  rw [columnName_group found, Additions.of_append, Additions.of_single, ← List.append_assoc, List.find?_append, absent]
  simp

theorem columnFor_cases (added : Additions) :
    (∃ name, columnName? groups added group.label form = some name ∧ columnFor group form added = (name, added)) ∨
      ∃ name, columnName? groups added group.label form = none ∧
        (name ∉ (group.columns ++ Additions.of added group.label).map (·.name) ∧ ∃ n, name = candidate n) ∧
        columnFor group form added = (name, added ++ [(group.label, ⟨name, form⟩)]) := by
  rw [columnName_group found]
  unfold columnFor
  dsimp only
  split
  · rename_i b present
    left
    exact ⟨b.name, by rw [present]; rfl, rfl⟩
  · rename_i absent
    right
    exact ⟨_, by rw [absent]; rfl, ⟨freshName_fresh _ _, freshName_candidate _ _⟩, rfl⟩

theorem Distinct.add {added : Additions} {name : String} (before : Distinct groups added)
    (absent : columnName? groups added group.label form = none)
    (free : name ∉ (group.columns ++ Additions.of added group.label).map (·.name)) :
    Distinct groups (added ++ [(group.label, ⟨name, form⟩)]) := by
  constructor
  · intro label other same
    rw [Additions.of_append]
    by_cases here : label = group.label
    · subst here
      obtain rfl : group = other := Option.some.inj (found.symm.trans same)
      rw [Additions.of_single, ← List.append_assoc, List.map_append]
      apply (before.names found).append (List.nodup_singleton _)
      simpa using free
    · rw [Additions.of_other here, List.append_nil]
      exact before.names same
  · rw [List.map_append]
    apply before.forms.append (List.nodup_singleton _)
    apply List.disjoint_singleton.mpr
    intro member
    obtain ⟨a, inAdded, same⟩ := List.mem_map.mp member
    obtain ⟨sameLabel, sameForm⟩ := Prod.mk.inj same
    -- The form would be a column of the group already, and then none had been added for it.
    have column : a.2 ∈ Additions.of added group.label :=
      List.mem_map.mpr ⟨a, List.mem_filter.mpr ⟨inAdded, beq_iff_eq.mpr sameLabel⟩, rfl⟩
    exact (columnName_absent found).mp absent a.2 (List.mem_append_right _ column) sameForm

theorem columnFor_lifts :
    Lifts groups [(group.label, form)] (fun names => (names group.label form).getD "") (columnFor group form) := by
  have finds (added : Additions) :
      columnName? groups (columnFor group form added).2 group.label form = some (columnFor group form added).1 := by
    rcases columnFor_cases found added with ⟨name, present, made⟩ | ⟨name, absent, -, made⟩
    · rw [made, present]
    · rw [made, columnName_added found absent]
  constructor
  case grows =>
    intro added
    rcases columnFor_cases found added with ⟨name, -, made⟩ | ⟨name, -, -, made⟩
    · exact ⟨[], by rw [made, List.append_nil]⟩
    · exact ⟨_, by rw [made]⟩
  case finds =>
    intro added f member
    obtain rfl := List.mem_singleton.mp member
    exact ⟨_, finds added⟩
  case answers =>
    intro added later since
    rw [columnName_grows since (finds added)]
    rfl
  case adds =>
    intro added a member
    rcases columnFor_cases found added with ⟨name, -, made⟩ | ⟨name, absent, ⟨-, named⟩, made⟩
    · rw [made] at member
      exact .inl member
    · rw [made] at member
      apply (List.mem_append.mp member).imp_right
      intro here
      obtain rfl := List.mem_singleton.mp here
      refine ⟨List.mem_singleton.mpr rfl, (columnName_absent found).mpr fun b column => ?_, named⟩
      -- A column that is added was lacking before any was added, since columns are only added.
      apply (columnName_absent found).mp absent b
      exact List.mem_append_left _ (by simpa [Additions.of] using column)
  case distinct =>
    intro added before
    rcases columnFor_cases found added with ⟨name, -, made⟩ | ⟨name, absent, ⟨free, -⟩, made⟩
    · rwa [made]
    · rw [made]
      exact before.add found absent free

end ColumnFor

theorem liftAggregates_passed {s : Shape Node} (passed : Node.Passed s) :
    liftAggregates groups (.mk s) = Node.mk <$> s.traverse (liftAggregates groups) := by
  rw [liftAggregates_mk]
  cases s <;> first | rfl | simp [Node.Passed, Shape.kind] at passed

/-- An expression comes to refer to columns in place of its aggregates. -/
theorem liftAggregates_lifts (n : Node) :
    Lifts groups (n.asked (groups.map (·.label))) (fun names => n.referring names) (liftAggregates groups n) := by
  induction n using Node.inductLevel with
  | aggregate label inGroup asQuery type first second =>
    rw [liftAggregates_mk, Node.asked_aggregate]
    dsimp only
    cases found : groupNamed? groups label with
    | some group =>
      obtain ⟨-, rfl⟩ := Placement.groupNamed_some found
      have known : group.label ∈ groups.map (·.label) := by
        by_contra unknown
        rw [groupNamed_none.mpr unknown] at found
        cases found
      rw [if_pos known]
      apply ((columnFor_lifts found).map fun name => Node.column ⟨group.label, name, type⟩).answering
      intro later all
      obtain ⟨name, called⟩ := all _ (List.mem_singleton.mpr rfl)
      rw [Node.referring_aggregate, called]
      rfl
    | none =>
      -- Over no source: it stays, and the aggregates inside it may be over one.
      rw [if_neg (groupNamed_none.mp found)]
      have both := first.bind fun left => second.map fun right => Node.groupAggregate label left right type
      apply both.answering
      intro later _
      have none : columnName? groups later label inGroup = none := by simp only [columnName?, found, Option.bind_none]
      rw [Node.referring_aggregate, none]
  | select q =>
    simp only [liftAggregates_mk, Node.asked_select, Node.referring_select]
    exact .pure _
  | subquery kind operand query type =>
    simp only [liftAggregates_mk, Node.asked_subquery, Node.referring_subquery]
    exact .pure _
  | passed s passed ih =>
    simp only [liftAggregates_passed passed, Node.asked_passed passed, Node.referring_passed passed]
    exact (Lifts.traverse ih).map Node.mk

theorem liftClauses_lifts (q : Select Node) :
    Lifts groups (q.asked (groups.map (·.label))) (fun names => q.referring names) (liftClauses groups q) := by
  generalize known : groups.map (·.label) = labels
  have each (n : Node) : Lifts groups (n.asked labels) (fun names => n.referring names) (liftAggregates groups n) :=
    known ▸ liftAggregates_lifts n
  have columns : Lifts groups (q.columns.flatMap (·.expr.asked labels))
      (fun names => q.columns.map (·.map (Node.referring names))) (q.columns.mapM (·.traverse (liftAggregates groups))) := by
    apply Lifts.listM
    exact fun b _ => (each b.expr).map (Binding.mk b.name)
  have filter : Lifts groups (q.filter.toList.flatMap (·.asked labels))
      (fun names => q.filter.map (Node.referring names)) (q.filter.mapM (liftAggregates groups)) :=
    Lifts.optionM fun n _ => each n
  have groupBy : Lifts groups (q.groupBy.flatMap (·.asked labels))
      (fun names => q.groupBy.map (Node.referring names)) (q.groupBy.mapM (liftAggregates groups)) :=
    Lifts.listM fun n _ => each n
  have orderBy : Lifts groups (q.orderBy.flatMap (·.expr.asked labels))
      (fun names => q.orderBy.map (·.map (Node.referring names))) (q.orderBy.mapM (·.traverse (liftAggregates groups))) := by
    apply Lifts.listM
    exact fun o _ => (each o.expr).map (OrderItem.mk · o.direction)
  -- The clauses are lifted in this order, so forms asked for in earlier ones are named first.
  have clauses := columns.bind fun columns => filter.bind fun filter => groupBy.bind fun groupBy =>
    orderBy.map fun orderBy => { q with columns, filter, groupBy, orderBy }
  simp only [map_eq_pure_bind] at clauses
  simp only [Select.asked, Select.ownExprs, List.flatMap_append, List.flatMap_map]
  exact clauses

end Pass

end QueryTree
