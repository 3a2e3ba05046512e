import QueryTree.Pass.Standard
import QueryTree.Proofs.Node.Traversal
import QueryTree.Proofs.Pass.Flattening
import QueryTree.Proofs.Pass.Remapping

/-! What holds of a tree layer by layer.

Some passes only move expressions from select to select, leave some out and refer to others. They keep whatever holds of
a node as soon as its layer is as it should be, children aside, and holds of the children.
-/

set_option autoImplicit false

namespace QueryTree

/-- Holds of a node by what its layer is, children aside, and by what they are. Of a select only the label counts, and
columns and conjunctions are as they should be. -/
structure Layerwise (P : Node → Prop) : Prop where
  child {s : Shape Node} {c : Node} : P (.mk s) → c ∈ s.children → P c
  layer {s t : Shape Node} : P (.mk s) → t.bare = s.bare → (∀ c ∈ t.children, P c) → P (.mk t)
  select {q r : Select Node} : P (.select q) → r.label = q.label → (∀ c ∈ r.children, P c) → P (.select r)
  column (c : Column) : P (.column c)
  both {a b : Node} : P a → P b → P (.both a b)

variable {P : Node → Prop}

namespace Layerwise

theorem map (layers : Layerwise P) {s : Shape Node} {f : Node → Node} (before : P (.mk s))
    (each : ∀ c ∈ s.children, P (f c)) : P (.mk (s.map f)) := by
  apply layers.layer before (Shape.bare_map f s)
  simpa only [Shape.children_map, List.forall_mem_map] using each

theorem mapUp (layers : Layerwise P) {rule : Node → Node} (each : ∀ m, P m → P (rule m)) {n : Node} (before : P n) :
    P (n.mapUp rule) := by
  induction n using Node.inductNode with
  | step s ih =>
    rw [Node.mapUp_mk]
    exact each _ (layers.map before fun c child => ih c child (layers.child before child))

theorem subtree (layers : Layerwise P) {n m : Node} (before : P n) (member : m ∈ n.subtrees) : P m :=
  Node.inherited (P := P) (fun _ here _ child => layers.child here child) before member

theorem mapSources (layers : Layerwise P) {f : Select Node → Node} {n : Node} (before : P n)
    (each : ∀ s ∈ n.sourceSelects, P (.select s) → P (f s)) : P (n.mapSources f) := by
  induction n using Node.inductNode with
  | step shape ih =>
    cases shape with
    | select q => exact each q (List.mem_singleton.mpr rfl) before
    | join kind left right condition =>
      have first := layers.child before (c := left) (by simp [Shape.children])
      have second := layers.child before (c := right) (by simp [Shape.children])
      have left' := ih left (by simp [Shape.children]) first fun s member => each s (List.mem_append_left _ member)
      have right' := ih right (by simp [Shape.children]) second fun s member => each s (List.mem_append_right _ member)
      refine layers.layer before (t := .join kind _ _ condition) rfl fun c member => ?_
      simp only [Shape.children, List.mem_cons, Option.mem_toList] at member
      rcases member with rfl | rfl | test
      · exact left'
      · exact right'
      · exact layers.child before (by simp [Shape.children, Option.mem_def.mp test])
    | _ => exact before

end Layerwise

theorem Node.every_layerwise {fine : Shape Unit → Bool} (select : ∀ q, fine (.select q) = true)
    (column : ∀ c, fine (.column c) = true) (both : ∀ a b type, fine (.binary .and a b type) = true) :
    Layerwise fun n => n.every fine = true where
  child := fun before child => (every_mk.mp before).2 _ child
  layer := fun before same each => every_mk.mpr ⟨same ▸ (every_mk.mp before).1, each⟩
  select := fun _ _ each => every_mk.mpr ⟨select _, each⟩
  column := fun c => every_mk.mpr ⟨column c, fun _ member => absurd member List.not_mem_nil⟩
  both := fun first second => every_mk.mpr ⟨both _ _ _, by simpa [Shape.children] using ⟨first, second⟩⟩

/-! ### Mappings -/

namespace Mapping

/-- Every column stands for something of the property. -/
def Holds (P : Node → Prop) (m : Mapping) : Prop := ∀ b ∈ m.columns, P b.expr

variable {mappings : List Mapping}

theorem Holds.resolve (layers : Layerwise P) {m : Mapping} {c : Column} {meaning : Node} (holds : m.Holds P)
    (found : m.resolve? c = some meaning) : P meaning := by
  obtain ⟨-, ⟨b, member, -, rfl⟩ | ⟨owner, -, rfl⟩⟩ := resolve_some found
  · exact holds b member
  · exact layers.column _

theorem follow_holds (layers : Layerwise P) (each : ∀ m ∈ mappings, m.Holds P) (depth : Nat) {n : Node} (before : P n) :
    P (follow mappings depth n) := by
  -- A meaning is followed one step less, and the layers above a column as many steps as the column.
  induction depth generalizing n with
  | zero => exact before
  | succ depth ih =>
    induction n using Node.inductNode with
    | step s below =>
      by_cases column : s.kind = .column
      · cases s with
        | column c =>
          rw [follow_column]
          cases found : mappings.findSome? (·.resolve? c) with
          | none => exact layers.column c
          | some meaning =>
            obtain ⟨m, member, resolved⟩ := List.exists_of_findSome?_eq_some found
            exact ih ((each m member).resolve layers resolved)
        | _ => cases column
      · rw [follow_mk _ _ column]
        exact layers.map before fun c child => below c child (layers.child before child)

end Mapping

namespace Pass

/-! ### Columns that nothing refers to -/

theorem keptColumns_sublist (used : List Column) (q : Select Node) : (keptColumns used q).Sublist q.columns := by
  unfold keptColumns
  split
  · exact List.Sublist.refl _
  · split
    · exact List.take_sublist _ _
    · exact List.filter_sublist

theorem keptColumns_some (used : List Column) (q : Select Node) (none : keptColumns used q = []) : q.columns = [] := by
  unfold keptColumns at none
  split at none
  · exact none
  · split at none
    · exact (List.take_eq_nil_iff.mp none).resolve_left Nat.one_ne_zero
    next kept => exact absurd none kept

theorem holds_withColumns (layers : Layerwise P) {q : Select Node} {columns : List (Binding Node)}
    (before : P (.select q)) (each : ∀ b ∈ columns, P b.expr) : P (.select { q with columns }) := by
  refine layers.select (r := { q with columns }) before rfl fun c member => ?_
  rcases Select.mem_children.mp member with ⟨b, column, rfl⟩ | later
  · exact each b column
  · exact layers.child before (Select.mem_children.mpr (.inr later))

theorem holds_ofSublist (layers : Layerwise P) {q : Select Node} {columns : List (Binding Node)}
    (before : P (.select q)) (sublist : columns.Sublist q.columns) : P (.select { q with columns }) :=
  holds_withColumns layers before fun _ member => layers.child before (Select.column_child (sublist.subset member))

theorem children_withSource {q : Select Node} {source : Option Node} (before : ∀ c ∈ q.children, P c)
    (sources : ∀ s ∈ source, P s) : ∀ c ∈ ({ q with source } : Select Node).children, P c := by
  intro c member
  rcases Select.mem_children.mp member with column | inside | clause
  · exact before c (Select.mem_children.mpr (.inl column))
  · exact sources c inside
  · exact before c (Select.clause_child clause)

theorem prunedSource_holds (layers : Layerwise P) (used : List Column) {q : Select Node} (before : ∀ c ∈ q.children, P c) :
    ∀ s ∈ q.source.map (Node.mapSources (pruneSource used)), P s := by
  intro s member
  obtain ⟨source, inside, rfl⟩ := Option.map_eq_some_iff.mp member
  refine layers.mapSources (before source (Select.source_child inside)) fun p _ holds => ?_
  exact holds_ofSublist layers holds (keptColumns_sublist used p)

theorem pruneSources_holds (layers : Layerwise P) (used : List Column) (n : Node) (before : P n) :
    P (pruneSources used n) := by
  unfold pruneSources
  split
  · rename_i q
    split
    · exact before
    · have below : ∀ c ∈ q.children, P c := fun c child => layers.child before child
      exact layers.select before rfl (children_withSource below (prunedSource_holds layers used below))
  · exact before

end Pass

theorem Node.untilStable_keeps {P : Node → Prop} {step : Node → Node} (keeps : ∀ n, P n → P (step n)) (rounds : Nat) :
    ∀ n : Node, P n → P (n.untilStable step rounds) := by
  induction rounds with
  | zero => exact fun _ before => before
  | succ rounds ih =>
    intro n before
    unfold untilStable
    dsimp only
    split
    · exact before
    · exact ih _ (keeps n before)

/-- What every pass keeps is kept by the rounds. -/
theorem Pipeline.optimize_keeps (p : Pipeline) (keep : ∀ pass ∈ p.passes, ∀ n, P n → P (pass.transform n))
    {n : Node} (before : P n) : P (p.optimize n) :=
  Node.untilStable_keeps (fun _ holds => List.foldlRecOn _ _ holds fun n holds pass member => keep pass member n holds) _
    n before

namespace Pass

/-! ### Equal columns -/

theorem Dropped.mapping_holds (layers : Layerwise P) (own : String) (found : List Duplicate) :
    (mapping own found).Holds P := by
  intro b member
  obtain ⟨d, _, rfl⟩ := List.mem_map.mp member
  exact layers.column _

theorem dropColumns_holds (layers : Layerwise P) (dropped : Dropped) (n : Node) (before : P n) :
    P (dropColumns dropped n) := by
  unfold dropColumns
  split
  · split
    · exact holds_ofSublist layers before List.filter_sublist
    · exact before
  · exact before

/-! ### Sources that a select can do without -/

theorem ofSelect_holds (layers : Layerwise P) {s : Select Node} {m : Mapping} (mapped : Mapping.ofSelect? s = some m)
    (before : P (.select s)) : m.Holds P := by
  have fromColumns : ∀ b ∈ m.columns, b ∈ s.columns := by
    intro b member
    unfold Mapping.ofSelect? at mapped
    dsimp only at mapped
    split at mapped
    · obtain ⟨owner, _, rfl⟩ := Option.map_eq_some_iff.mp mapped
      exact (List.mem_filter.mp member).1
    · cases mapped
      exact (List.mem_filter.mp member).1
  exact fun b member => layers.child before (Select.column_child (fromColumns b member))

theorem merge_holds (layers : Layerwise P) {outer inner : Select Node} (outside : ∀ c ∈ outer.children, P c)
    (inside : ∀ c ∈ inner.children, P c) : ∀ c ∈ (merge outer inner).children, P c := by
  obtain ⟨columns, -, outerFilter, groups, outerOrder, skip, take⟩ := Select.forall_children.mp outside
  obtain ⟨-, source, innerFilter, -, innerOrder, -, -⟩ := Select.forall_children.mp inside
  have filter := mergeFilters_holds layers.both innerFilter outerFilter
  refine Select.forall_children.mpr ⟨columns, source, filter, groups, ?_, skip, take⟩
  intro o member
  simp only [merge, mergeOrder] at member
  split at member
  · exact outerOrder o member
  · split at member
    · exact innerOrder o member
    · cases member

theorem skipJoined_holds (layers : Layerwise P) (outerIsStar : Bool) {s : Select Node} (before : P (.select s)) :
    P (skipJoined outerIsStar s).1 ∧ ∀ m ∈ (skipJoined outerIsStar s).2, m.Holds P := by
  unfold skipJoined
  split
  · rename_i source mapping found mapped
    split
    · refine ⟨layers.child before (Select.source_child found), ?_⟩
      simpa using ofSelect_holds layers mapped before
    · exact ⟨before, by simp⟩
  · exact ⟨before, by simp⟩

theorem flattenSelect_holds (layers : Layerwise P) {q : Select Node} (before : ∀ c ∈ q.children, P c) :
    (flattenSelect q).1.label = q.label ∧ (flattenSelect q).1.columns = q.columns ∧
      (∀ c ∈ (flattenSelect q).1.children, P c) ∧ ∀ m ∈ (flattenSelect q).2, m.Holds P := by
  have still : q.label = q.label ∧ q.columns = q.columns ∧ (∀ c ∈ q.children, P c) ∧
      ∀ m ∈ ([] : List Mapping), m.Holds P := ⟨rfl, rfl, before, by simp⟩
  unfold flattenSelect
  split
  · rename_i inner found
    have inside : P (.select inner) := before _ (Select.source_child found)
    split
    · rename_i mapping mapped
      split
      · refine ⟨rfl, rfl, merge_holds layers before fun c child => layers.child inside child, ?_⟩
        simpa using ofSelect_holds layers mapped inside
      · exact still
    · exact still
  · rename_i kind left right condition found
    have source : P (.join kind left right condition) := before _ (Select.source_child found)
    refine ⟨rfl, rfl, children_withSource before ?_, ?_⟩
    · rintro s ⟨⟩
      exact layers.mapSources source fun p _ holds => (skipJoined_holds layers _ holds).1
    · intro m member
      obtain ⟨s, joined, member⟩ := List.mem_flatMap.mp member
      exact (skipJoined_holds layers _ (layers.subtree source (Node.sourceSelects_mem joined))).2 m member
  · exact still

theorem flatten_holds (layers : Layerwise P) {n : Node} (before : P n) :
    P (flatten n).1 ∧ ∀ m ∈ (flatten n).2, m.Holds P := by
  induction n using Node.inductNode with
  | step s ih =>
    have below : ∀ c ∈ s.children, P (flatten c).1 ∧ ∀ m ∈ (flatten c).2, m.Holds P :=
      fun c child => ih c child (layers.child before child)
    have inner : ∀ m ∈ s.children.flatMap (fun c => (flatten c).2), m.Holds P := by
      intro m member
      obtain ⟨c, child, member⟩ := List.mem_flatMap.mp member
      exact (below c child).2 m member
    have layer := layers.map (f := fun c => (flatten c).1) before fun c child => (below c child).1
    rw [flatten_mk]
    split
    · rename_i q flattened
      rw [flattened] at layer
      obtain ⟨sameLabel, -, each, own⟩ := flattenSelect_holds layers fun c child => layers.child layer child
      exact ⟨layers.select layer sameLabel each, List.forall_mem_append.mpr ⟨inner, own⟩⟩
    · exact ⟨layer, inner⟩

/-! ### Aggregates over a group select -/

/-- Every added column is by an expression of the property. -/
def Additions.Hold (P : Node → Prop) (added : Additions) : Prop := ∀ a ∈ added, P a.2.expr

theorem columnFor_holds (group : Select Node) {expr : Node} (before : P expr) :
    Ensures (Additions.Hold P) (fun _ => True) (columnFor group expr) := by
  intro added hold
  unfold columnFor
  dsimp only
  split
  · exact ⟨trivial, hold⟩
  · refine ⟨trivial, fun a member => ?_⟩
    rcases List.mem_append.mp member with member | member
    · exact hold a member
    · obtain rfl := List.mem_singleton.mp member
      exact before

theorem liftAggregates_mk (groups : List (Select Node)) (s : Shape Node) : liftAggregates groups (.mk s) =
    match s with
    | .groupAggregate owner inGroup asQuery type =>
      match groupNamed? groups owner with
      | some group => do return .column ⟨owner, ← columnFor group inGroup, type⟩
      | none => do return .groupAggregate owner (← liftAggregates groups inGroup) (← liftAggregates groups asQuery) type
    | .select _ | .subquery .. => pure (.mk s)
    | s => do return .mk (← s.traverse (liftAggregates groups)) := by
  -- The recursion has every child beside its result: the results are what is traversed, the children what is kept.
  have rest (s : Shape Node) : (s.map fun c => (c, liftAggregates groups c)).traverse Prod.snd =
      s.traverse (liftAggregates groups) := Shape.traverse_map _ _ s
  have kept (s : Shape Node) : (s.map fun c => (c, liftAggregates groups c)).map Prod.fst = s :=
    (Shape.map_map _ _ s).trans (Shape.map_id s)
  refine (Node.para_mk _ s).trans ?_
  cases s with
  | groupAggregate owner inGroup asQuery type => rfl
  | select q => exact congrArg (fun s => pure (Node.mk s)) (kept (.select q))
  | subquery kind operand query type =>
    exact congrArg (fun s => pure (Node.mk s)) (kept (.subquery kind operand query type))
  | _ =>
    dsimp only
    rw [← rest]
    rfl

theorem liftAggregates_holds (layers : Layerwise P) (groups : List (Select Node)) {n : Node} (before : P n) :
    Ensures (Additions.Hold P) P (liftAggregates groups n) := by
  induction n using Node.inductNode with
  | step s ih =>
    have below : ∀ c ∈ s.children, Ensures (Additions.Hold P) P (liftAggregates groups c) :=
      fun c child => ih c child (layers.child before child)
    rw [liftAggregates_mk]
    split
    · rename_i owner inGroup asQuery type
      split
      · exact (columnFor_holds _ (layers.child before (by simp [Shape.children]))).bind fun _ _ => .pure (layers.column _)
      · refine (below inGroup (by simp [Shape.children])).bind fun r first => ?_
        refine (below asQuery (by simp [Shape.children])).bind fun r' second => .pure ?_
        refine layers.layer before (t := .groupAggregate owner r r' type) rfl ?_
        simpa [Shape.children] using ⟨first, second⟩
    · exact .pure before
    · exact .pure before
    · exact (Ensures.traverse below).bind fun r kept => .pure (layers.layer before kept.1 kept.2)

theorem liftClauses_holds (layers : Layerwise P) (groups : List (Select Node)) {q : Select Node}
    (before : ∀ c ∈ q.children, P c) :
    Ensures (Additions.Hold P)
      (fun r => r.label = q.label ∧ r.columns.map (·.name) = q.columns.map (·.name) ∧ r.source = q.source ∧
        ∀ c ∈ r.children, P c) (liftClauses groups q) := by
  have each (c : Node) (child : c ∈ q.children) : Ensures (Additions.Hold P) P (liftAggregates groups c) :=
    liftAggregates_holds layers groups (before c child)
  unfold liftClauses
  refine (Ensures.bindingsM fun c member => each c ?_).bind fun columns ⟨sameNames, columnsHold⟩ => ?_
  · obtain ⟨b, column, rfl⟩ := List.mem_map.mp member
    exact Select.column_child column
  refine (Ensures.optionM fun c member => each c ?_).bind fun filter filterHolds => ?_
  · exact Select.filter_child member
  refine (Ensures.listM fun c member => each c ?_).bind fun groupBy groupsHold => ?_
  · exact Select.group_child member
  refine (Ensures.orderM fun c member => each c ?_).bind fun orderBy ordersHold => .pure ?_
  · obtain ⟨o, order, rfl⟩ := List.mem_map.mp member
    exact Select.order_child order
  obtain ⟨-, source, -, -, -, skip, take⟩ := Select.forall_children.mp before
  exact ⟨rfl, sameNames, rfl,
    Select.forall_children.mpr ⟨columnsHold, source, filterHolds, groupsHold, ordersHold, skip, take⟩⟩

theorem addColumns_holds (layers : Layerwise P) {added : Additions} (hold : added.Hold P) {s : Select Node}
    (before : P (.select s)) : P (addColumns added s) := by
  refine holds_withColumns layers before fun b member => ?_
  rcases List.mem_append.mp member with own | extra
  · exact layers.child before (Select.column_child own)
  · obtain ⟨a, inAdded, rfl⟩ := List.mem_map.mp extra
    exact hold a (List.mem_filter.mp inAdded).1

theorem liftFrom_holds (layers : Layerwise P) {source : Node} {q : Select Node} (reads : q.source = some source)
    (before : ∀ c ∈ q.children, P c) : (liftFrom source q).label = q.label ∧
      (liftFrom source q).columns.map (·.name) = q.columns.map (·.name) ∧
      ∀ c ∈ (liftFrom source q).children, P c := by
  have inside : P source := before source (Select.source_child reads)
  obtain ⟨⟨sameLabel, sameNames, -, each⟩, hold⟩ :=
    liftClauses_holds layers source.sourceSelects before [] (fun a member => absurd member List.not_mem_nil)
  unfold liftFrom
  split
  · exact ⟨rfl, rfl, before⟩
  · rename_i lifted added _ found
    rw [found] at sameLabel sameNames each hold
    refine ⟨sameLabel, sameNames, children_withSource each ?_⟩
    rintro s ⟨⟩
    exact layers.mapSources inside fun p _ holds => addColumns_holds layers hold holds

theorem liftSelect_holds (layers : Layerwise P) (n : Node) (before : P n) : P (liftSelect n) := by
  unfold liftSelect
  split
  · rename_i q
    split
    · rename_i source reads
      obtain ⟨sameLabel, -, each⟩ := liftFrom_holds layers reads fun c child => layers.child before child
      exact layers.select before sameLabel each
    · exact before
  · exact before

/-! ### The passes -/

theorem groupAggregates_holds (layers : Layerwise P) {n : Node} (before : P n) : P (groupAggregates.transform n) :=
  layers.mapUp (liftSelect_holds layers) before

theorem unusedColumns_holds (layers : Layerwise P) {n : Node} (before : P n) : P (unusedColumns.transform n) :=
  Node.untilStable_keeps (fun _ holds => layers.mapUp (pruneSources_holds layers _) holds) _ n before

theorem equalColumns_holds (layers : Layerwise P) {n : Node} (before : P n) : P (equalColumns.transform n) := by
  refine Mapping.follow_holds layers (fun m member => ?_) _ (layers.mapUp (dropColumns_holds layers _) before)
  obtain ⟨e, _, rfl⟩ := List.mem_map.mp member
  exact Dropped.mapping_holds layers _ _

theorem sources_holds (layers : Layerwise P) {n : Node} (before : P n) : P (sources.transform n) :=
  Mapping.follow_holds layers (flatten_holds layers before).2 _ (flatten_holds layers before).1

end Pass

end QueryTree
