import QueryTree.Proofs.Node.Weights
import QueryTree.Proofs.Pass.Places

/-! What passes do to the weight of a tree.

As long as nothing that a label stands for is heavier than the label allows, every pass leaves a tree as it is or makes
it lighter, and keeps to what the labels allow.
-/

set_option autoImplicit false

namespace QueryTree

variable {ω : String → Nat}

/-! ### What labels allow -/

/-- What references to a select may turn into is no heavier than its label allows. -/
structure Select.Bounded (ω : String → Nat) (q : Select Node) : Prop where
  columns : ∀ b ∈ q.columns, b.isWildcard = false → b.expr.weight ω ≤ ω q.label
  source : ∀ s ∈ q.source, s.front ω ≤ ω q.label

/-- A group select may have to declare the form that an aggregate over it has inside the group. -/
def Shape.Bounded (ω : String → Nat) : Shape Node → Prop
  | .select q => q.Bounded ω
  | .groupAggregate label inGroup _ _ => inGroup.weight ω ≤ ω label
  | _ => True

namespace Node

variable {n a b c : Node} {s : Shape Node} {q p : Select Node} {exact : Prop}

def Bounded (ω : String → Nat) (n : Node) : Prop := ∀ m ∈ n.subtrees, m.shape.Bounded ω

theorem bounded_mk : (Node.mk s).Bounded ω ↔ s.Bounded ω ∧ ∀ c ∈ s.children, c.Bounded ω := by
  simp only [Bounded, subtrees_mk, List.forall_mem_cons, List.forall_mem_flatMap, shape_mk]

theorem bounded_select : (Node.select q).Bounded ω ↔ q.Bounded ω ∧ ∀ c ∈ q.children, c.Bounded ω := bounded_mk

theorem Bounded.child (bounded : (Node.mk s).Bounded ω) (child : c ∈ s.children) : c.Bounded ω :=
  (bounded_mk.mp bounded).2 c child

theorem Bounded.subtree (bounded : n.Bounded ω) (member : a ∈ n.subtrees) : a.Bounded ω :=
  fun m inside => bounded m (subtrees_trans member inside)

theorem bounded_parts : PartByPart (Bounded ω) := by
  intro s ordinary
  rw [bounded_mk]
  refine and_iff_right ?_
  cases s <;> trivial

theorem bounded_column (c : Column) : (Node.column c).Bounded ω :=
  bounded_mk.mpr ⟨trivial, fun _ member => absurd member List.not_mem_nil⟩

theorem bounded_both (first : a.Bounded ω) (second : b.Bounded ω) : (Node.both a b).Bounded ω :=
  bounded_parts.binary.mpr ⟨first, second⟩

/-! ### What may take the place of a heavier node -/

/-- What `a` is replaced by is lighter, or as heavy, in which case it may have to be `a` itself. -/
structure Relieves (exact : Prop) (ω : String → Nat) (a b : Node) : Prop where
  bounded : b.Bounded ω
  front : b.front ω ≤ a.front ω
  weight : b.weight ω < a.weight ω ∨ b.weight ω = a.weight ω ∧ (exact → b = a)

theorem Relieves.refl (bounded : a.Bounded ω) : Relieves exact ω a a :=
  ⟨bounded, Nat.le_refl _, .inr ⟨rfl, fun _ => rfl⟩⟩

theorem Relieves.le (relieves : Relieves exact ω a b) : b.weight ω ≤ a.weight ω :=
  relieves.weight.elim Nat.le_of_lt fun same => Nat.le_of_eq same.1

theorem Relieves.trans (first : Relieves exact ω a b) (second : Relieves exact ω b c) : Relieves exact ω a c := by
  refine ⟨second.bounded, second.front.trans first.front, ?_⟩
  rcases second.weight with less | ⟨same, equal⟩
  · exact .inl (Nat.lt_of_lt_of_le less first.le)
  · exact first.weight.imp same.trans_lt fun ⟨before, equal'⟩ =>
      ⟨same.trans before, fun exactly => (equal exactly).trans (equal' exactly)⟩

theorem relieves_iff : TakesPlace (Relieves exact ω) a b ↔ (a.Bounded ω → Relieves exact ω a b) :=
  ⟨fun takes bounded => takes a (.refl bounded), fun replaced _ fits => fits.trans (replaced fits.bounded)⟩

theorem Relieves.takes (relieves : Relieves exact ω a b) : TakesPlace (Relieves exact ω) a b :=
  fun _ before => before.trans relieves

theorem takes_lighter (label : p.label = q.label) (bounded : (Node.select q).Bounded ω → (Node.select p).Bounded ω)
    (weight : (Node.select q).Bounded ω → p = q ∨ (Node.select p).weight ω < (Node.select q).weight ω) :
    TakesPlace (Relieves exact ω) (.select q) (.select p) := by
  refine relieves_iff.mpr fun before => ?_
  rcases weight before with rfl | less
  · exact .refl before
  · exact ⟨bounded before, Nat.le_of_eq (congrArg (ω · + 1) label), .inl less⟩

theorem takes_column {c : Column} (bounded : a.Bounded ω) (allowed : a.weight ω ≤ ω c.label) :
    TakesPlace (Relieves exact ω) (.column c) a :=
  relieves_iff.mpr fun _ => ⟨bounded, (front_le a).trans (Nat.le_succ_of_le allowed), .inl (Nat.lt_succ_of_le allowed)⟩

theorem takes_sameLabel {c d : Column} (label : d.label = c.label) :
    TakesPlace (Relieves False ω) (.column c) (.column d) :=
  have same : (Node.column d).weight ω = (Node.column c).weight ω := congrArg (ω · + 1) label
  relieves_iff.mpr fun _ => ⟨bounded_column d, Nat.le_of_eq same, .inr ⟨same, False.elim⟩⟩

/-! ### Layers -/

theorem front_map {s : Shape (Node × Node)}
    (lighter : (Node.mk (s.map Prod.snd)).weight ω ≤ (Node.mk (s.map Prod.fst)).weight ω) :
    (Node.mk (s.map Prod.snd)).front ω ≤ (Node.mk (s.map Prod.fst)).front ω := by
  cases s <;> first | exact Nat.le_refl _ | exact lighter

theorem bounded_map {s : Shape (Node × Node)} (weight : ∀ p ∈ s.children, p.2.weight ω ≤ p.1.weight ω)
    (front : ∀ p ∈ s.children, p.2.front ω ≤ p.1.front ω) (bounded : (s.map Prod.fst).Bounded ω) :
    (s.map Prod.snd).Bounded ω := by
  cases s with
  | select q =>
    obtain ⟨columns, source⟩ := bounded
    simp only [Select.map, List.forall_mem_map, Option.mem_def, Option.map_eq_some_iff] at columns source
    constructor
    · simp only [Select.map, List.forall_mem_map]
      exact fun b column named => (weight b.expr (Select.column_child column)).trans (columns b column named)
    · rintro _ replaced
      obtain ⟨p, reads, rfl⟩ := Option.map_eq_some_iff.mp replaced
      exact (front p (Select.source_child reads)).trans (source _ ⟨p, reads, rfl⟩)
  | groupAggregate label inGroup asQuery type =>
    exact (weight inGroup (by simp [Shape.children])).trans bounded
  | _ => trivial

theorem relieves_layer {s : Shape (Node × Node)} (each : ∀ p ∈ s.children, TakesPlace (Relieves exact ω) p.1 p.2) :
    TakesPlace (Relieves exact ω) (.mk (s.map Prod.fst)) (.mk (s.map Prod.snd)) := by
  refine relieves_iff.mpr fun before => ?_
  obtain ⟨own, below⟩ := bounded_mk.mp before
  rw [Shape.children_map, List.forall_mem_map] at below
  have relieved (p : Node × Node) (child : p ∈ s.children) : Relieves exact ω p.1 p.2 :=
    relieves_iff.mp (each p child) (below p child)
  have lighter : ∀ p ∈ s.children, p.2.weight ω ≤ p.1.weight ω := fun p child => (relieved p child).le
  have whole := weight_le lighter
  refine ⟨bounded_mk.mpr ⟨?_, ?_⟩, front_map whole, ?_⟩
  · exact bounded_map lighter (fun p child => (relieved p child).front) own
  · rw [Shape.children_map, List.forall_mem_map]
    exact fun p child => (relieved p child).bounded
  · refine (Nat.lt_or_eq_of_le whole).imp_right fun same => ⟨same, fun exactly => ?_⟩
    -- No child got lighter, or the layer would have.
    have still := weight_same lighter same
    refine congrArg Node.mk (Shape.map_congr fun p child => ?_)
    exact ((relieved p child).weight.resolve_left (Nat.not_lt.mpr (Nat.le_of_eq (still p child).symm))).2 exactly

/-! ### Selects -/

theorem takes_fewer {columns : List (Binding Node)} (sublist : columns.Sublist q.columns) :
    TakesPlace (Relieves exact ω) (.select q) (.select { q with columns }) := by
  refine takes_lighter rfl (fun before => ?_) fun _ => ?_
  · obtain ⟨own, below⟩ := bounded_select.mp before
    refine bounded_select.mpr ⟨⟨fun b column => own.columns b (sublist.subset column), own.source⟩, fun c child => ?_⟩
    rcases Select.mem_children.mp child with ⟨b, column, rfl⟩ | later
    · exact below b.expr (Select.column_child (sublist.subset column))
    · exact below c (Select.mem_children.mpr (.inr later))
  · rcases Nat.lt_or_ge columns.length q.columns.length with fewer | all
    · refine .inr (weight_lt rfl (Nat.le_refl _) ?_)
      simp only [Select.burden, Select.held, Select.clauses, List.map_append, load_append, Nat.add_lt_add_iff_right]
      exact load_fewer ((sublist.map _).map _) (by simpa using fewer)
    · exact .inl (by rw [sublist.eq_of_length_le all])

theorem keyParts_weight (n : Node) :
    Pass.keyParts n = [n] ∨ load ((Pass.keyParts n).map (weight ω)) < 1 + n.weight ω := by
  induction n using inductNode with
  | step s ih =>
    have total : load ((s.children.flatMap Pass.keyParts).map (weight ω)) ≤ load (s.children.map (weight ω)) :=
      (flatMap_lighter ih).elim (fun same => by rw [same]) Nat.le_of_lt
    rw [Pass.keyParts_mk]
    split
    · rename_i elements
      rw [weight_tuple]
      exact .inr (Nat.lt_of_le_of_lt total (by simp only [Shape.children]; omega))
    · rename_i entity keys
      rw [weight_object]
      simp only [Shape.children, List.flatMap_map, List.map_map, Function.comp_def] at total
      exact .inr (by omega)
    · exact .inl rfl

theorem takes_groups (q : Select Node) :
    TakesPlace (Relieves exact ω) (.select q) (.select { q with groupBy := q.groupBy.flatMap Pass.keyParts }) := by
  refine takes_lighter rfl (fun before => ?_) fun _ => ?_
  · obtain ⟨own, below⟩ := bounded_select.mp before
    obtain ⟨columns, source, filter, groups, rest⟩ := Select.forall_children.mp below
    refine bounded_select.mpr ⟨⟨own.columns, own.source⟩,
      Select.forall_children.mpr ⟨columns, source, filter, fun g member => ?_, rest⟩⟩
    obtain ⟨key, inside, part⟩ := List.mem_flatMap.mp member
    exact Pass.keyParts_part bounded_parts (groups key inside) g part
  · have parts := flatMap_lighter fun key (_ : key ∈ q.groupBy) => keyParts_weight (ω := ω) key
    refine parts.imp (fun same => by rw [same]) fun less => weight_lt rfl (Nat.le_refl _) ?_
    simp only [Select.burden, Select.held, Select.clauses, List.map_append, load_append]
    omega

theorem takes_source {source source' : Node} (reads : q.source = some source)
    (relieves : Relieves exact ω source source') :
    TakesPlace (Relieves exact ω) (.select q) (.select { q with source := some source' }) := by
  refine relieves_iff.mpr fun before => ⟨bounded_select.mpr ⟨?_, ?_⟩, Nat.le_refl _, ?_⟩
  · obtain ⟨own, -⟩ := bounded_select.mp before
    exact ⟨own.columns, fun s same => Option.some.inj same ▸ relieves.front.trans (own.source source reads)⟩
  · exact Pass.children_withSource (bounded_select.mp before).2 fun s same => Option.some.inj same ▸ relieves.bounded
  · have weights : ({ q with source := some source' } : Select Node).burden ω = q.burden ω := rfl
    simp only [weight_select, weights, reads, Option.map_some, Option.getD_some]
    rcases relieves.weight with less | ⟨same, equal⟩
    · have product := Nat.mul_lt_mul_of_pos_right (Nat.add_lt_add_left less 1) (Nat.two_pow_pos (2 + q.burden ω))
      exact .inl (Nat.add_lt_add_left product _)
    · exact .inr ⟨by rw [same], fun exactly => by rw [equal exactly, ← reads]⟩

theorem mergeFilters_load (inner outer : Option Node) :
    load ((Pass.mergeFilters inner outer).toList.map (weight ω)) ≤
      load (inner.toList.map (weight ω)) + load (outer.toList.map (weight ω)) + 2 := by
  cases inner with
  | none => cases outer <;> simp [Pass.mergeFilters]
  | some i =>
    cases outer with
    | none => simp [Pass.mergeFilters]
    | some o =>
      have both : (Node.both i o).weight ω = 3 + i.weight ω + o.weight ω := weight_connective rfl i o _
      simp only [Pass.mergeFilters, Option.toList_some, List.map_cons, List.map_nil, load_cons, load_nil, both]
      omega

theorem mergeOrder_load (outer inner : Select Node) :
    load ((Pass.mergeOrder outer inner).map fun o => o.expr.weight ω) ≤
      load (inner.orderBy.map fun o => o.expr.weight ω) + load (outer.orderBy.map fun o => o.expr.weight ω) := by
  unfold Pass.mergeOrder
  split
  · exact Nat.le_add_left _ _
  · split
    · exact Nat.le_add_right _ _
    · exact Nat.zero_le _

theorem merge_burden (outer inner : Select Node) :
    (Pass.merge outer inner).burden ω ≤ outer.burden ω + (2 + inner.burden ω) := by
  have filters := mergeFilters_load (ω := ω) inner.filter outer.filter
  have orders := mergeOrder_load (ω := ω) outer inner
  simp only [Select.burden, Select.held, Select.clauses, Pass.merge, List.map_append, load_append, List.map_map,
    Function.comp_def] at filters orders ⊢
  omega

/-- A select that takes in its source weighs less than with the source. -/
theorem takes_merged {inner : Select Node} (reads : q.source = some (.select inner)) :
    TakesPlace (Relieves exact ω) (.select q) (.select (Pass.merge q inner)) := by
  refine takes_lighter rfl (fun before => ?_) fun _ => .inr ?_
  · obtain ⟨own, below⟩ := bounded_select.mp before
    obtain ⟨columns, source, filter, groups, order, skip, take⟩ := Select.forall_children.mp below
    obtain ⟨innerOwn, innerBelow⟩ := bounded_select.mp (source (.select inner) reads)
    obtain ⟨-, innerSource, innerFilter, -, innerOrder, -, -⟩ := Select.forall_children.mp innerBelow
    have label : ω inner.label + 1 ≤ ω q.label := own.source _ reads
    refine bounded_select.mpr ⟨⟨own.columns, fun s member => ?_⟩, ?_⟩
    · exact (innerOwn.source s member).trans (Nat.le_of_succ_le label)
    · refine Select.forall_children.mpr ⟨columns, innerSource, ?_, groups, fun o member => ?_, skip, take⟩
      · exact Pass.mergeFilters_holds bounded_both innerFilter filter
      · exact (Placement.mergeOrder_mem member).elim (order o) fun inherited => innerOrder o inherited.1
  · have taken : (Node.select inner).weight ω * 2 ^ (2 + q.burden ω) ≥
        (1 + (inner.source.map (weight ω)).getD 0) * 2 ^ (2 + (Pass.merge q inner).burden ω) := by
      -- What the inner select held is held by the outer one now, so the exponents add up.
      have powers : 2 ^ (2 + (Pass.merge q inner).burden ω) ≤ 2 ^ (2 + inner.burden ω) * 2 ^ (2 + q.burden ω) := by
        rw [← Nat.pow_add]
        have burden := merge_burden (ω := ω) q inner
        exact Nat.pow_le_pow_right (by decide) (by omega)
      refine (Nat.mul_le_mul_left _ powers).trans ?_
      rw [← Nat.mul_assoc, weight_select]
      exact Nat.mul_le_mul_right _ (Nat.le_add_left _ _)
    have merged : ((Pass.merge q inner).source.map (weight ω)).getD 0 = (inner.source.map (weight ω)).getD 0 := rfl
    rw [weight_select, weight_select q, merged, reads, Option.map_some, Option.getD_some]
    refine Nat.add_lt_add_left (Nat.lt_of_le_of_lt taken ?_) _
    exact Nat.mul_lt_mul_of_pos_right (Nat.lt_one_add_iff.mpr (Nat.le_refl _)) (Nat.two_pow_pos _)

theorem sourceLabel_front {source : Node} {label : String} (labelled : source.sourceLabel? = some label) :
    ω label + 1 = source.front ω := by
  obtain ⟨s⟩ := source
  cases s <;> cases labelled <;> rfl

theorem faithful_ofBounded {m : Mapping} (bounded : (Node.select q).Bounded ω) (mapped : Mapping.ofSelect? q = some m) :
    m.Faithful (Relieves exact ω) := by
  obtain ⟨own, below⟩ := bounded_select.mp bounded
  obtain ⟨sameLabel, declared, passed⟩ := Mapping.ofSelect_some mapped
  refine .of (fun b member c same => ?_) fun owner passes c same => ?_
  · obtain ⟨column, named⟩ := declared b member
    refine takes_column (below b.expr (Select.column_child column)) ?_
    rw [same, sameLabel]
    exact own.columns b column named
  · obtain ⟨source, reads, labelled⟩ := Option.bind_eq_some_iff.mp (passed owner passes)
    have front : ω owner + 1 ≤ ω q.label := (sourceLabel_front labelled).trans_le (own.source source reads)
    refine takes_column (bounded_column _) ?_
    rw [weight_column, same, sameLabel]
    exact front

theorem relieves_frame : BareFrame (Relieves exact ω) (fun _ => True) (fun _ => True)
    fun label e => e.Bounded ω ∧ e.weight ω ≤ ω label where
  child relieves child := ⟨_, .refl (relieves.bounded.child child)⟩
  layer := relieves_layer
  joined := id
  sides {r kind left right condition} _ relieves := by
    have onLeft := relieves.bounded.child (c := left) (by simp [Shape.children])
    have onRight := relieves.bounded.child (c := right) (by simp [Shape.children])
    refine ⟨left, right, ⟨trivial, .refl onLeft⟩, ⟨trivial, .refl onRight⟩, fun left' right' first second => ?_⟩
    have takes : TakesPlace (Relieves exact ω)
        (.mk ((Shape.join kind (left, left') (right, right') (condition.map fun c => (c, c))).map Prod.fst)) _ :=
      relieves_layer fun p child => by
        simp only [Shape.children, List.mem_cons, Option.mem_toList, Option.map_eq_some_iff] at child
        rcases child with rfl | rfl | ⟨c, -, rfl⟩
        · exact first.takes
        · exact second.takes
        · exact .refl c
    simpa [Shape.map, Function.comp_def] using takes r (by simpa [Shape.map, Function.comp_def] using relieves)
  reads {r q source} relieves reads := by
    have inside := relieves.bounded.child (Select.source_child reads)
    exact ⟨source, ⟨trivial, .refl inside⟩, fun source' fits => takes_source reads fits r relieves⟩
  prune sublist _ := takes_fewer sublist
  measure {label inGroup asQuery type} name := by
    -- A reference holds nothing, so it is lighter than an aggregate with two forms.
    have less : (Node.column ⟨label, name, type⟩).weight ω <
        (Node.groupAggregate label inGroup asQuery type).weight ω := by
      rw [weight_column, weight_mk]
      simp only [Shape.map, Shape.weight]
      omega
    exact relieves_iff.mpr fun _ => ⟨bounded_column _, Nat.le_of_lt less, .inl less⟩
  declares {r q p source c e} relieves _ _ inside form := by
    obtain ⟨asQuery, type, member⟩ := Placement.groupForms_mem form
    have group := (relieves.bounded.child (Select.lifted_child inside)).subtree member
    exact ⟨group.child (by simp [Shape.children]), (bounded_mk.mp group).1⟩
  merges {r q inner m} reads mapped _ relieves :=
    ⟨takes_merged reads r relieves, faithful_ofBounded (relieves.bounded.child (Select.source_child reads)) mapped⟩
  skips {r outerIsStar s source m} _ reads mapped _ relieves := by
    have own := (bounded_select.mp relieves.bounded).1
    have passed : Relieves exact ω (.select s) source :=
      ⟨relieves.bounded.child (Select.source_child reads), (own.source source reads).trans (Nat.le_succ _),
        .inl (weight_child (Select.source_child reads))⟩
    exact ⟨relieves.trans passed, faithful_ofBounded relieves.bounded mapped⟩
  keys := takes_groups

end Node

end QueryTree
