import QueryTree.Proofs.Pass.Layers
import QueryTree.Proofs.Pass.Rules

/-! What fits where, and what may take its place.

A property may ask different things of a node by the place where the node stands: as a source, as a test, as a nested
query. Whatever fits all the places that another node fits may take its place in any tree. What the passes do to single
layers is asked of such a property here, and that the whole pipeline keeps it follows for all of them.
-/

set_option autoImplicit false

namespace QueryTree

section Places

variable {ρ : Type}

/-- `b` fits wherever `a` does. -/
def TakesPlace (P : ρ → Node → Prop) (a b : Node) : Prop := ∀ r, P r a → P r b

/-- `b` fits wherever `a` is a source. -/
def TakesSource (P : ρ → Node → Prop) (S : ρ → Prop) (a b : Node) : Prop := ∀ r, S r → P r a → P r b

/-- The meaning of a reference fits wherever the reference does. -/
def Mapping.Faithful (P : ρ → Node → Prop) (m : Mapping) : Prop :=
  ∀ c meaning, m.resolve? c = some meaning → TakesPlace P (.column c) meaning

/-- The group aggregates at its own level, by their labels, in the form that each has inside its group. -/
def Node.groupForms : Node → List (String × Node) :=
  para fun
    | .groupAggregate label inGroup asQuery _ => (label, inGroup.1) :: (inGroup.2 ++ asQuery.2)
    | .select _ | .subquery .. => []
    | s => s.children.flatMap Prod.snd

/-- The parts of a select that aggregates are lifted from, among others. -/
def Select.lifted (q : Select Node) : List Node := q.columns.map (·.expr) ++ q.clauses

theorem Select.lifted_child {q : Select Node} {c : Node} (inside : c ∈ q.lifted) : c ∈ q.children := by
  rcases List.mem_append.mp inside with column | clause
  · obtain ⟨b, member, rfl⟩ := List.mem_map.mp column
    exact Select.column_child member
  · exact Select.clause_child clause

/-- What places have to ask for the passes to keep it that add no columns to a source. `S` are the places of sources, `J`
those of the sides of joins, and `D` tells what a select of a label may declare. -/
structure BareFrame (P : ρ → Node → Prop) (S J : ρ → Prop) (D : String → Node → Prop) : Prop where
  child {r : ρ} {s : Shape Node} {c : Node} : P r (.mk s) → c ∈ s.children → ∃ r', P r' c
  layer {s : Shape (Node × Node)} : (∀ p ∈ s.children, TakesPlace P p.1 p.2) →
    TakesPlace P (.mk (s.map Prod.fst)) (.mk (s.map Prod.snd))
  joined {r : ρ} : J r → S r
  sides {r : ρ} {kind : JoinKind} {left right : Node} {condition : Option Node} : S r →
    P r (.join kind left right condition) → ∃ r₁ r₂, (J r₁ ∧ P r₁ left) ∧ (J r₂ ∧ P r₂ right) ∧
      ∀ left' right', P r₁ left' → P r₂ right' → P r (.join kind left' right' condition)
  reads {r : ρ} {q : Select Node} {source : Node} : P r (.select q) → q.source = some source →
    ∃ r', (S r' ∧ P r' source) ∧ ∀ source', P r' source' → P r (.select { q with source := some source' })
  prune {q : Select Node} {columns : List (Binding Node)} : columns.Sublist q.columns → (columns = [] → q.columns = []) →
    TakesPlace P (.select q) (.select { q with columns })
  /-- An aggregate over a group may become a reference to a column of the group select. -/
  measure {label : String} {inGroup asQuery : Node} {type : DataType} (name : String) :
    TakesPlace P (.groupAggregate label inGroup asQuery type) (.column ⟨label, name, type⟩)
  /-- And the group select may declare that column. -/
  declares {r : ρ} {q p : Select Node} {source c e : Node} : P r (.select q) → q.source = some source →
    p ∈ source.sourceSelects → c ∈ q.lifted → (p.label, e) ∈ c.groupForms → D p.label e
  merges {r : ρ} {q inner : Select Node} {m : Mapping} : q.source = some (.select inner) →
    Mapping.ofSelect? inner = some m → Pass.canMerge q inner = true → P r (.select q) →
    P r (.select (Pass.merge q inner)) ∧ m.Faithful P
  skips {r : ρ} {outerIsStar : Bool} {s : Select Node} {source : Node} {m : Mapping} : J r → s.source = some source →
    Mapping.ofSelect? s = some m → Pass.passesThrough outerIsStar s source = true → P r (.select s) →
    P r source ∧ m.Faithful P
  keys (q : Select Node) : TakesPlace P (.select q) (.select { q with groupBy := q.groupBy.flatMap Pass.keyParts })

/-- What they have to ask for most passes to keep it. -/
structure Frame (P : ρ → Node → Prop) (S J : ρ → Prop) (D : String → Node → Prop) : Prop extends BareFrame P S J D where
  more {q : Select Node} {extra : List (Binding Node)} : (∀ b ∈ extra, D q.label b.expr) →
    TakesPlace P (.select q) (.select { q with columns := q.columns ++ extra })

/-- What they have to ask for every pass to keep it: where a column of a label fits, so does any other, and a select may
do with fewer columns or none. -/
structure Placement (P : ρ → Node → Prop) (S : ρ → Prop) (D : String → Node → Prop) : Prop extends Frame P S S D where
  column {c d : Column} : d.label = c.label → TakesPlace P (.column c) (.column d)
  fewer {q : Select Node} {columns : List (Binding Node)} : columns.Sublist q.columns →
    TakesPlace P (.select q) (.select { q with columns })
  joined := id
  prune := fun sublist _ => fewer sublist

variable {P : ρ → Node → Prop} {S : ρ → Prop} {D : String → Node → Prop}

theorem TakesPlace.refl (a : Node) : TakesPlace P a a := fun _ fits => fits

theorem TakesPlace.trans {a b c : Node} (first : TakesPlace P a b) (second : TakesPlace P b c) : TakesPlace P a c :=
  fun r fits => second r (first r fits)

theorem Mapping.Faithful.ofNames {m : Mapping}
    (declared : ∀ b ∈ m.columns, ∀ c : Column, c.label = m.label → c.name = b.name → TakesPlace P (.column c) b.expr)
    (passed : ∀ owner ∈ m.passthrough, ∀ c : Column, c.label = m.label →
      TakesPlace P (.column c) (.column { c with label := owner })) : m.Faithful P := by
  intro c meaning resolved
  obtain ⟨same, ⟨b, member, sameName, rfl⟩ | ⟨owner, passes, rfl⟩⟩ := resolve_some resolved
  · exact declared b member c same.symm sameName.symm
  · exact passed owner passes c same.symm

theorem Mapping.Faithful.of {m : Mapping}
    (declared : ∀ b ∈ m.columns, ∀ c : Column, c.label = m.label → TakesPlace P (.column c) b.expr)
    (passed : ∀ owner ∈ m.passthrough, ∀ c : Column, c.label = m.label →
      TakesPlace P (.column c) (.column { c with label := owner })) : m.Faithful P :=
  .ofNames (fun b member c same _ => declared b member c same) passed

theorem Mapping.ofSelect_some {s : Select Node} {m : Mapping} (mapped : ofSelect? s = some m) :
    m.label = s.label ∧ (∀ b ∈ m.columns, b ∈ s.columns ∧ b.isWildcard = false) ∧
      ∀ owner ∈ m.passthrough, s.source.bind Node.sourceLabel? = some owner := by
  have named : ∀ b ∈ s.columns.filter fun b => !b.isWildcard, b ∈ s.columns ∧ b.isWildcard = false := by simp
  unfold ofSelect? at mapped
  dsimp only at mapped
  split at mapped
  · obtain ⟨owner, known, rfl⟩ := Option.map_eq_some_iff.mp mapped
    exact ⟨rfl, named, by simpa using known⟩
  · cases mapped
    exact ⟨rfl, named, by simp⟩

theorem Mapping.ofSelect_exposes {s : Select Node} {m : Mapping} (mapped : ofSelect? s = some m) :
    ∀ owner ∈ m.passthrough, s.projectsStar = true := by
  intro owner passes
  unfold ofSelect? at mapped
  dsimp only at mapped
  split at mapped
  · assumption
  · cases mapped
    cases passes

namespace Placement

theorem mergeOrder_mem {outer inner : Select Node} {o : OrderItem Node} (member : o ∈ Pass.mergeOrder outer inner) :
    o ∈ outer.orderBy ∨ o ∈ inner.orderBy ∧ Pass.inheritsOrder outer = true := by
  unfold Pass.mergeOrder at member
  split at member
  · exact .inl member
  · split at member
    · rename_i inherits
      exact .inr ⟨member, inherits⟩
    · cases member

/-- No column of a select that is taken in is told of many rows. -/
theorem canMerge_columns {outer inner : Select Node} (mergeable : Pass.canMerge outer inner = true) :
    ∀ b ∈ inner.columns, b.expr.aggregates = false ∧ b.expr.windows = false := by
  simp only [Pass.canMerge, Bool.and_eq_true, Bool.not_eq_true', List.any_eq_false, Bool.or_eq_true, not_or,
    Bool.not_eq_true] at mergeable
  exact mergeable.1.2

/-- The named columns of a joined select that is passed over are references. -/
theorem passesThrough_columns {outerIsStar : Bool} {s : Select Node} {source : Node}
    (passes : Pass.passesThrough outerIsStar s source = true) :
    ∀ b ∈ s.columns, b.isWildcard = false → ∃ c, b.expr = .column c := by
  intro b member named
  simp only [Pass.passesThrough, Bool.and_eq_true] at passes
  obtain ⟨-, passes⟩ := passes
  split at passes
  · rename_i wild
    rw [List.all_eq_true.mp wild b member] at named
    cases named
  · have reference := List.all_eq_true.mp (Bool.and_eq_true_iff.mp passes).2 b member
    obtain ⟨c, found⟩ := Option.isSome_iff_exists.mp reference
    exact ⟨c, Node.column_some found⟩

/-- Every added column may be declared by the select that it is added to. -/
def Declared (D : String → Node → Prop) (added : Pass.Additions) : Prop := ∀ a ∈ added, D a.1 a.2.expr

theorem columnFor (group : Select Node) {expr : Node} (declared : D group.label expr) :
    Ensures (Declared D) (fun _ => True) (Pass.columnFor group expr) := by
  intro added hold
  unfold Pass.columnFor
  dsimp only
  split
  · exact ⟨trivial, hold⟩
  · refine ⟨trivial, fun a member => ?_⟩
    rcases List.mem_append.mp member with member | member
    · exact hold a member
    · obtain rfl := List.mem_singleton.mp member
      exact declared

theorem groupForms_mk (s : Shape Node) : (Node.mk s).groupForms =
    match s with
    | .groupAggregate label inGroup asQuery _ => (label, inGroup) :: (inGroup.groupForms ++ asQuery.groupForms)
    | .select _ | .subquery .. => []
    | s => s.children.flatMap Node.groupForms := by
  have rest (s : Shape Node) :
      (s.map fun c => (c, c.groupForms)).children.flatMap Prod.snd = s.children.flatMap Node.groupForms := by
    rw [Shape.children_map, List.flatMap_map]
  refine (Node.para_mk _ s).trans ?_
  cases s <;> first | rfl | exact rest _

theorem groupForms_mem {n : Node} {label : String} {e : Node} (form : (label, e) ∈ n.groupForms) :
    ∃ asQuery type, .groupAggregate label e asQuery type ∈ n.subtrees := by
  induction n using Node.inductNode with
  | step s ih =>
    have below {c : Node} (child : c ∈ s.children) (form : (label, e) ∈ c.groupForms) :
        ∃ asQuery type, .groupAggregate label e asQuery type ∈ (Node.mk s).subtrees := by
      obtain ⟨asQuery, type, member⟩ := ih c child form
      exact ⟨asQuery, type, Node.mem_subtrees_of_child child member⟩
    rw [groupForms_mk] at form
    split at form
    · rename_i owner inGroup asQuery type
      rcases List.mem_cons.mp form with same | form
      · cases same
        exact ⟨asQuery, type, Node.self_mem_subtrees _⟩
      · rcases List.mem_append.mp form with form | form
        · exact below (by simp [Shape.children]) form
        · exact below (by simp [Shape.children]) form
    · cases form
    · cases form
    · obtain ⟨c, child, form⟩ := List.mem_flatMap.mp form
      exact below child form

theorem groupNamed_some {groups : List (Select Node)} {label : String} {group : Select Node}
    (found : Pass.groupNamed? groups label = some group) : group ∈ groups ∧ group.label = label :=
  ⟨List.mem_reverse.mp (List.mem_of_find?_eq_some found), by simpa using List.find?_some found⟩

/-- The children of a select, each with whether aggregates are lifted from it. -/
def tagged (q : Select Node) : Select (Bool × Node) :=
  { q.map fun c => (true, c) with
    source := q.source.map fun c => (false, c)
    skip := q.skip.map fun c => (false, c)
    take := q.take.map fun c => (false, c) }

theorem tagged_snd (q : Select Node) : (Shape.select (tagged q)).map Prod.snd = .select q := by
  simp [tagged, Shape.map, Select.map, Function.comp_def, Binding.map, OrderItem.map]

theorem mem_tagged {q : Select Node} {c : Node} (member : (true, c) ∈ (tagged q).children) : c ∈ q.lifted := by
  simp only [tagged, Select.children, Select.map, List.mem_append, List.mem_map, Option.mem_toList,
    Option.map_eq_some_iff, Prod.mk.injEq, Bool.false_eq_true, false_and, and_false, exists_false, or_false,
    Binding.map, OrderItem.map] at member
  simp only [Select.lifted, Select.clauses, List.mem_append, List.mem_map, Option.mem_toList]
  grind

theorem liftClauses_eq (groups : List (Select Node)) (q : Select Node) : Pass.liftClauses groups q =
    (tagged q).traverse fun p => if p.1 then Pass.liftAggregates groups p.2 else pure p.2 := by
  have kept (o : Option Node) : (o.mapM fun a => (pure a : StateM Pass.Additions Node)) = pure o := by cases o <;> simp
  simp [Pass.liftClauses, tagged, Select.traverse, Select.map, optionM_map, Binding.traverse, Binding.map,
    OrderItem.traverse, OrderItem.map, Function.comp_def, kept]

end Placement

namespace BareFrame

open Placement

variable {J : ρ → Prop}

/-! ### Layers -/

theorem map (place : BareFrame P S J D) {s : Shape Node} {f : Node → Node}
    (each : ∀ c ∈ s.children, TakesPlace P c (f c)) : TakesPlace P (.mk s) (.mk (s.map f)) := by
  have pairs := place.layer (s := s.map fun c => (c, f c)) (by simpa only [Shape.children_map, List.forall_mem_map])
  simpa only [Shape.map_map, Shape.map_id] using pairs

theorem mapUp_each (place : BareFrame P S J D) {rule : Node → Node} {n : Node}
    (each : ∀ s, .mk s ∈ n.subtrees → ∀ f : Node → Node, TakesPlace P (.mk (s.map f)) (rule (.mk (s.map f)))) :
    TakesPlace P n (n.mapUp rule) := by
  induction n using Node.inductNode with
  | step s ih =>
    rw [Node.mapUp_mk]
    have below : ∀ c ∈ s.children, TakesPlace P c (c.mapUp rule) := fun c child =>
      ih c child fun t member => each t (Node.mem_subtrees_of_child child member)
    exact (place.map below).trans (each s (Node.self_mem_subtrees _) _)

theorem mapUp (place : BareFrame P S J D) {rule : Node → Node} (each : ∀ n, TakesPlace P n (rule n)) (n : Node) :
    TakesPlace P n (n.mapUp rule) := place.mapUp_each fun _ _ _ => each _

theorem mapSources (place : BareFrame P S J D) {T : ρ → Prop} (sourced : ∀ r, T r → S r) (side : ∀ r, J r → T r)
    {f : Select Node → Node} {n : Node} (each : ∀ s ∈ n.sourceSelects, TakesSource P T (.select s) (f s)) :
    TakesSource P T n (n.mapSources f) := by
  induction n using Node.inductNode with
  | step shape ih =>
    cases shape with
    | select q => exact each q (List.mem_singleton.mpr rfl)
    | join kind left right condition =>
      have left' := ih left (by simp [Shape.children]) fun s member => each s (List.mem_append_left _ member)
      have right' := ih right (by simp [Shape.children]) fun s member => each s (List.mem_append_right _ member)
      intro r here fits
      obtain ⟨r₁, r₂, ⟨first, fitsLeft⟩, ⟨second, fitsRight⟩, again⟩ := place.sides (sourced r here) fits
      exact again _ _ (left' r₁ (side r₁ first) fitsLeft) (right' r₂ (side r₂ second) fitsRight)
    | _ => exact fun _ _ fits => fits

theorem mapJoined (place : BareFrame P S J D) {f : Select Node → Node} {kind : JoinKind} {left right : Node}
    {condition : Option Node}
    (each : ∀ s ∈ (Node.join kind left right condition).sourceSelects, TakesSource P J (.select s) (f s)) :
    TakesSource P S (.join kind left right condition) ((Node.join kind left right condition).mapSources f) := by
  intro r sourced fits
  obtain ⟨r₁, r₂, ⟨first, fitsLeft⟩, ⟨second, fitsRight⟩, again⟩ := place.sides sourced fits
  refine again _ _ ?_ ?_
  · exact place.mapSources (fun _ => place.joined) (fun _ => id)
      (fun s member => each s (List.mem_append_left _ member)) r₁ first fitsLeft
  · exact place.mapSources (fun _ => place.joined) (fun _ => id)
      (fun s member => each s (List.mem_append_right _ member)) r₂ second fitsRight

theorem sourceSelects (place : BareFrame P S J D) {n : Node} {r : ρ} (side : J r) (fits : P r n) {s : Select Node}
    (member : s ∈ n.sourceSelects) : ∃ r', J r' ∧ P r' (.select s) := by
  induction n using Node.inductNode generalizing r with
  | step shape ih =>
    cases shape with
    | select q =>
      obtain rfl := List.mem_singleton.mp member
      exact ⟨r, side, fits⟩
    | join kind left right condition =>
      obtain ⟨r₁, r₂, ⟨first, fitsLeft⟩, ⟨second, fitsRight⟩, -⟩ := place.sides (place.joined side) fits
      rcases List.mem_append.mp member with inLeft | inRight
      · exact ih left (by simp [Shape.children]) first fitsLeft inLeft
      · exact ih right (by simp [Shape.children]) second fitsRight inRight
    | _ => exact absurd member List.not_mem_nil

theorem joinedSelects (place : BareFrame P S J D) {r : ρ} {kind : JoinKind} {left right : Node} {condition : Option Node}
    (sourced : S r) (fits : P r (.join kind left right condition)) {s : Select Node}
    (member : s ∈ (Node.join kind left right condition).sourceSelects) : ∃ r', J r' ∧ P r' (.select s) := by
  obtain ⟨r₁, r₂, ⟨first, fitsLeft⟩, ⟨second, fitsRight⟩, -⟩ := place.sides sourced fits
  rcases List.mem_append.mp member with inLeft | inRight
  · exact place.sourceSelects first fitsLeft inLeft
  · exact place.sourceSelects second fitsRight inRight

theorem withSource (place : BareFrame P S J D) {q : Select Node} {source source' : Node} (reads : q.source = some source)
    (takes : TakesSource P S source source') : TakesPlace P (.select q) (.select { q with source := some source' }) := by
  intro r fits
  obtain ⟨r', ⟨sourced, fitsSource⟩, again⟩ := place.reads fits reads
  exact again source' (takes r' sourced fitsSource)

/-! ### Mappings -/

theorem follow (place : BareFrame P S J D) {mappings : List Mapping} (each : ∀ m ∈ mappings, m.Faithful P) (depth : Nat)
    (n : Node) : TakesPlace P n (Mapping.follow mappings depth n) := by
  -- A meaning is followed one step less, and the layers above a column as many steps as the column.
  induction depth generalizing n with
  | zero => exact .refl n
  | succ depth ih =>
    induction n using Node.inductNode with
    | step s below =>
      by_cases column : s.kind = .column
      · cases s with
        | column c =>
          rw [Mapping.follow_column]
          cases found : mappings.findSome? (·.resolve? c) with
          | none => exact .refl _
          | some meaning =>
            obtain ⟨m, member, resolved⟩ := List.exists_of_findSome?_eq_some found
            exact (each m member c meaning resolved).trans (ih meaning)
        | _ => cases column
      · rw [Mapping.follow_mk _ _ column]
        exact place.map below

/-! ### Columns that nothing refers to -/

theorem pruneSources (place : BareFrame P S J D) (used : List Column) (n : Node) :
    TakesPlace P n (Pass.pruneSources used n) := by
  unfold Pass.pruneSources
  split
  · rename_i q
    split
    · exact .refl _
    · cases reads : q.source with
      | none =>
        have same : { q with source := none } = q := by rw [← reads]
        exact same ▸ .refl _
      | some source =>
        refine place.withSource reads
          (place.mapSources (fun _ => id) (fun _ => place.joined) fun s _ r _ fits => ?_)
        exact place.prune (Pass.keptColumns_sublist used s) (Pass.keptColumns_some used s) r fits
  · exact .refl _

theorem unusedColumns (place : BareFrame P S J D) (n : Node) : TakesPlace P n (Pass.unusedColumns.transform n) :=
  fun r fits => Node.untilStable_keeps (P := P r) (fun n fits => place.mapUp (place.pruneSources _) n r fits) _ n fits

/-! ### Sources that a select can do without -/

theorem skipJoined (place : BareFrame P S J D) {r : ρ} (outerIsStar : Bool) {s : Select Node} (side : J r)
    (fits : P r (.select s)) :
    P r (Pass.skipJoined outerIsStar s).1 ∧ ∀ m ∈ (Pass.skipJoined outerIsStar s).2, m.Faithful P := by
  unfold Pass.skipJoined
  split
  · rename_i source mapping found mapped
    split
    · rename_i passes
      obtain ⟨fitsSource, faithful⟩ := place.skips side found mapped passes fits
      exact ⟨fitsSource, by simpa using faithful⟩
    · exact ⟨fits, by simp⟩
  · exact ⟨fits, by simp⟩

theorem flattenSelect (place : BareFrame P S J D) {r : ρ} {q : Select Node} (fits : P r (.select q)) :
    P r (.select (Pass.flattenSelect q).1) ∧ ∀ m ∈ (Pass.flattenSelect q).2, m.Faithful P := by
  unfold Pass.flattenSelect
  split
  · rename_i inner found
    split
    · rename_i mapping mapped
      split
      · rename_i mergeable
        obtain ⟨merged, faithful⟩ := place.merges found mapped mergeable fits
        exact ⟨merged, by simpa using faithful⟩
      · exact ⟨fits, by simp⟩
    · exact ⟨fits, by simp⟩
  · rename_i kind left right condition found
    refine ⟨place.withSource found (place.mapJoined fun s _ r' side fits => ?_) r fits, fun m member => ?_⟩
    · exact (place.skipJoined _ side fits).1
    · obtain ⟨s, joined, member⟩ := List.mem_flatMap.mp member
      obtain ⟨r', ⟨sourced, fitsSource⟩, -⟩ := place.reads fits found
      obtain ⟨r'', side, fitsSelect⟩ := place.joinedSelects sourced fitsSource joined
      exact (place.skipJoined _ side fitsSelect).2 m member
  · exact ⟨fits, by simp⟩

theorem flatten (place : BareFrame P S J D) {r : ρ} {n : Node} (fits : P r n) :
    P r (Pass.flatten n).1 ∧ ∀ m ∈ (Pass.flatten n).2, m.Faithful P := by
  induction n using Node.inductNode generalizing r with
  | step s ih =>
    have layer : P r (.mk (s.map fun c => (Pass.flatten c).1)) :=
      place.map (fun c child r' fits => (ih c child fits).1) r fits
    have inner : ∀ m ∈ s.children.flatMap (fun c => (Pass.flatten c).2), m.Faithful P := by
      intro m member
      obtain ⟨c, child, member⟩ := List.mem_flatMap.mp member
      obtain ⟨r', fits⟩ := place.child fits child
      exact (ih c child fits).2 m member
    rw [Pass.flatten_mk]
    split
    · rename_i q flattened
      rw [flattened] at layer
      obtain ⟨whole, own⟩ := place.flattenSelect layer
      exact ⟨whole, List.forall_mem_append.mpr ⟨inner, own⟩⟩
    · exact ⟨layer, inner⟩

theorem sources (place : BareFrame P S J D) (n : Node) : TakesPlace P n (Pass.sources.transform n) :=
  fun r fits => place.follow (place.flatten fits).2 _ _ r (place.flatten fits).1

/-! ### Group keys -/

theorem groupKeys (place : BareFrame P S J D) (n : Node) : TakesPlace P n (Pass.groupKeys.transform n) := by
  refine place.mapUp (fun n => ?_) n
  unfold Pass.flattenKeys
  split
  · exact place.keys _
  · exact .refl _

/-! ### Aggregates over a group select -/

theorem liftAggregates (place : BareFrame P S J D) (groups : List (Select Node)) {n : Node}
    (declared : ∀ p ∈ groups, ∀ e, (p.label, e) ∈ n.groupForms → D p.label e) :
    Ensures (Declared D) (TakesPlace P n) (Pass.liftAggregates groups n) := by
  induction n using Node.inductNode with
  | step s ih =>
    rw [Pass.liftAggregates_mk]
    rw [groupForms_mk] at declared
    split
    · rename_i label inGroup asQuery type
      dsimp only at declared
      split
      · rename_i group found
        -- The aggregate is over one of the groups, and the column for it comes in its place.
        obtain ⟨member, rfl⟩ := groupNamed_some found
        have own : D group.label inGroup := declared group member inGroup List.mem_cons_self
        exact (columnFor group own).bind fun name _ => .pure (place.measure name)
      · refine (ih inGroup (by simp [Shape.children]) fun p member e form => ?_).bind fun r first => ?_
        · exact declared p member e (List.mem_cons_of_mem _ (List.mem_append_left _ form))
        refine (ih asQuery (by simp [Shape.children]) fun p member e form => ?_).bind fun r' second => .pure ?_
        · exact declared p member e (List.mem_cons_of_mem _ (List.mem_append_right _ form))
        exact place.layer (s := .groupAggregate label (inGroup, r) (asQuery, r') type)
          (by simpa [Shape.children] using ⟨first, second⟩)
    · exact .pure (.refl _)
    · exact .pure (.refl _)
    · rename_i notGroup notSelect notSubquery
      have each : ∀ c ∈ s.children, Ensures (Declared D) (TakesPlace P c) (Pass.liftAggregates groups c) := by
        refine fun c child => ih c child fun p member e form => declared p member e ?_
        split
        · exact absurd rfl (notGroup _ _ _ _)
        · exact absurd rfl (notSelect _)
        · exact absurd rfl (notSubquery _ _ _ _)
        · exact List.mem_flatMap.mpr ⟨c, child, form⟩
      -- The children are taken one after the other, each with the columns that those before it asked for.
      intro added hold
      obtain ⟨finish, members⟩ := Shape.run_traverse (fun x y => Declared D x → Declared D y) (fun _ same => same)
        (fun first second same => second (first same)) _ s (fun c child x hold => (each c child x hold).2) added
      refine ⟨?_, finish hold⟩
      have takes := place.layer (s := s.replaced (Pass.liftAggregates groups) added) fun p member => by
        obtain ⟨child, x, reached, answer, -⟩ := members p member
        exact answer ▸ (each p.1 child x (reached hold)).1
      rw [Shape.replaced_fst, Shape.replaced_snd] at takes
      exact takes

theorem liftClauses (place : BareFrame P S J D) (groups : List (Select Node)) {q : Select Node}
    (declared : ∀ p ∈ groups, ∀ c ∈ q.lifted, ∀ e, (p.label, e) ∈ c.groupForms → D p.label e) :
    Ensures (Declared D) (fun q' => q'.source = q.source ∧ TakesPlace P (.select q) (.select q'))
      (Pass.liftClauses groups q) := by
  intro added hold
  rw [liftClauses_eq]
  generalize tag : (fun p : Bool × Node => if p.1 then Pass.liftAggregates groups p.2 else pure p.2) = lift
  have each : ∀ c ∈ (tagged q).children, Ensures (Declared D) (TakesPlace P c.2) (lift c) := by
    rintro ⟨seen, c⟩ member
    subst tag
    cases seen with
    | true => exact place.liftAggregates groups fun p group e => declared p group c (mem_tagged member) e
    | false => exact .pure (.refl c)
  obtain ⟨finish, members⟩ := Shape.run_traverse (fun x y => Declared D x → Declared D y) (fun _ same => same)
    (fun first second same => second (first same)) lift (.select (tagged q))
    (fun c child x hold => (each c child x hold).2) added
  have takes := place.layer (s := ((Shape.select (tagged q)).replaced lift added).map fun p => (p.1.2, p.2)) <| by
    simp only [Shape.children_map, List.forall_mem_map]
    intro p member
    obtain ⟨child, x, reached, answer, -⟩ := members p member
    exact answer ▸ (each p.1 child x (reached hold)).1
  -- Without the tags the pairs are those of the select and what becomes of it.
  rw [Shape.map_map, Shape.map_map, ← Shape.map_map Prod.snd Prod.fst, Shape.replaced_fst, tagged_snd,
    Shape.replaced_snd] at takes
  exact ⟨⟨by subst tag; rw [← liftClauses_eq]; rfl, takes⟩, finish hold⟩

end BareFrame

namespace Frame

open Placement

variable {J : ρ → Prop}

theorem liftFrom (place : Frame P S J D) {source : Node} {q : Select Node} (reads : q.source = some source) :
    TakesPlace P (.select q) (.select (Pass.liftFrom source q)) := by
  intro r fits
  obtain ⟨⟨sameSource, takes⟩, hold⟩ := place.liftClauses source.sourceSelects
    (fun p member c inside e form => place.declares fits reads member inside form) []
    (fun a member => absurd member List.not_mem_nil)
  unfold Pass.liftFrom
  split
  · exact fits
  · rename_i lifted added _ found
    rw [found] at sameSource takes hold
    refine place.withSource (sameSource.trans reads)
      (place.mapSources (fun _ => id) (fun _ => place.joined) fun s _ r _ fits => ?_) r (takes r fits)
    refine place.more (fun b member => ?_) r fits
    obtain ⟨a, inAdded, rfl⟩ := List.mem_map.mp member
    obtain ⟨member, same⟩ := List.mem_filter.mp inAdded
    exact beq_iff_eq.mp same ▸ hold a member

theorem groupAggregates (place : Frame P S J D) (n : Node) : TakesPlace P n (Pass.groupAggregates.transform n) := by
  refine place.mapUp (fun n => ?_) n
  unfold Pass.liftSelect
  split
  · split
    · rename_i source reads
      exact place.liftFrom reads
    · exact .refl _
  · exact .refl _

/-! ### The passes -/

theorem passes (place : Frame P S J D) (rules : ∀ rule ∈ Pass.rules, ∀ n, TakesPlace P n (rule n)) :
    ∀ pass ∈ Pass.all, (∀ n, TakesPlace P n (pass.transform n)) ∨ pass = Pass.equalColumns := by
  intro pass member
  have byRule {rule : Node → Node} (member : rule ∈ Pass.rules) (n : Node) : TakesPlace P n (n.mapUp rule) :=
    place.mapUp (rules rule member) n
  simp only [Pass.all, List.mem_cons, List.not_mem_nil, or_false] at member
  rcases member with rfl | rfl | rfl | rfl | rfl | rfl | rfl | rfl | rfl | rfl | rfl | rfl
  · exact .inl place.groupKeys
  · exact .inl place.groupAggregates
  · exact .inl place.unusedColumns
  · exact .inr rfl
  · exact .inl place.sources
  all_goals exact .inl (byRule (by simp [Pass.rules]))

end Frame

namespace Placement

/-! ### Equal columns -/

theorem dropColumns (place : Placement P S D) (dropped : Pass.Dropped) (n : Node) :
    TakesPlace P n (Pass.dropColumns dropped n) := by
  unfold Pass.dropColumns
  split
  · split
    · exact place.fewer List.filter_sublist
    · exact .refl _
  · exact .refl _

theorem redirects (place : Placement P S D) (label : String) (found : List Pass.Duplicate) :
    (Pass.Dropped.mapping label found).Faithful P := by
  refine .of (fun b member c same => ?_) fun _ passes => absurd passes (by simp [Pass.Dropped.mapping])
  obtain ⟨d, -, rfl⟩ := List.mem_map.mp member
  exact place.column same.symm

theorem equalColumns (place : Placement P S D) (n : Node) : TakesPlace P n (Pass.equalColumns.transform n) := by
  refine (place.mapUp (place.dropColumns _) n).trans (place.follow (fun m member => ?_) _ _)
  obtain ⟨e, -, rfl⟩ := List.mem_map.mp member
  exact place.redirects _ _

/-! ### The pipeline -/

theorem passes (place : Placement P S D) (rules : ∀ rule ∈ Pass.rules, ∀ n, TakesPlace P n (rule n)) :
    ∀ pass ∈ Pass.all, ∀ n, TakesPlace P n (pass.transform n) := by
  intro pass member n
  rcases place.toFrame.passes rules pass member with each | rfl
  · exact each n
  · exact place.equalColumns n

/-- Whatever fits a place fits it when it is optimized, where what the rules make of an operator fits wherever it did. -/
theorem optimize (place : Placement P S D) (rules : ∀ rule ∈ Pass.rules, ∀ n, TakesPlace P n (rule n)) (n : Node) :
    TakesPlace P n (Pipeline.standard.optimize n) :=
  fun _ fits => Pipeline.optimize_keeps _ (fun pass member n => place.passes rules pass member n _) fits

end Placement

end Places

end QueryTree
