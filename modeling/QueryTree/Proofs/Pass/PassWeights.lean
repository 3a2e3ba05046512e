import QueryTree.Proofs.Pass.EqualColumns
import QueryTree.Proofs.Pass.RuleWeights

/-! What a round does to the weight of a tree.

A pass that moves columns to a source, or drops columns and turns references, changes a tree in several places at once.
What a select gains by it is paid for where it reads from that select, or loses a column.
-/

set_option autoImplicit false

namespace QueryTree.Pass

open Node

variable {ω : String → Nat} {exact : Prop}

/-! ### Aggregates over a group select -/

/-- What columns add to a select, and what a reference to each is lighter than the aggregate. -/
def Additions.cost (ω : String → Nat) (added : Additions) : Nat := (added.map fun a => 2 + a.2.expr.weight ω).sum

def Additions.burden (ω : String → Nat) (added : Additions) : Nat := load (added.map fun a => a.2.expr.weight ω)

theorem Additions.cost_eq (added : Additions) : added.cost ω = added.burden ω + added.length := by
  induction added with
  | nil => rfl
  | cons a rest ih =>
    simp only [cost, burden, List.map_cons, List.sum_cons, load_cons, List.length_cons] at ih ⊢
    omega

theorem columnFor_cost (group : Select Node) (expr : Node) (added : Additions) :
    Additions.cost ω (columnFor group expr added).2 ≤ added.cost ω + (2 + expr.weight ω) := by
  unfold columnFor
  dsimp only
  split
  · exact Nat.le_add_right _ _
  · simp [Additions.cost]

/-- What is lifted makes up for the columns that are added for it. -/
def Saves (ω : String → Nat) (n : Node) (x : StateM Additions Node) : Prop :=
  ∀ added, (x added).1.weight ω ≤ n.weight ω ∧
    (x added).1.weight ω + Additions.cost ω (x added).2 ≤ n.weight ω + added.cost ω

theorem mapM_load {α β σ : Type} {f : α → StateM σ β} {before : α → Nat} {after : β → Nat} {cost : σ → Nat} {l : List α}
    (each : ∀ a ∈ l, ∀ x, after (f a x).1 + cost (f a x).2 ≤ before a + cost x) (x : σ) :
    load ((l.mapM f x).1.map after) + cost (l.mapM f x).2 ≤ load (l.map before) + cost x := by
  induction l generalizing x with
  | nil => exact Nat.le_refl _
  | cons a rest ih =>
    have here := each a List.mem_cons_self x
    have later := ih (fun b member => each b (List.mem_cons_of_mem _ member)) (f a x).2
    have steps : (a :: rest).mapM f x = ((f a x).1 :: (rest.mapM f (f a x).2).1, (rest.mapM f (f a x).2).2) := by
      simp only [List.mapM_cons]
      rfl
    rw [steps, List.map_cons, List.map_cons, load_cons, load_cons]
    dsimp only
    omega

theorem saves_traverse {s : Shape Node} {f : Node → StateM Additions Node} (each : ∀ c ∈ s.children, Saves ω c (f c)) :
    Saves ω (.mk s) (do return .mk (← s.traverse f)) := by
  intro added
  obtain ⟨-, members⟩ := Shape.run_traverse (fun _ _ => True) (fun _ => trivial) (fun _ _ => trivial) f s
    (fun _ _ _ => trivial) added
  have lighter : ∀ p ∈ (s.replaced f added).children, p.2.weight ω ≤ p.1.weight ω := by
    intro p member
    obtain ⟨child, x, -, answer, -⟩ := members p member
    exact answer ▸ (each p.1 child x).1
  have total := mapM_load (fun c child x => (each c child x).2) added
  -- The children of a layer are taken in order, as a list of them would be.
  have state : (s.traverse f added).2 = (s.children.mapM f added).2 :=
    congrArg (fun c => (c added).2) (Shape.children_traverse f s)
  have answers : (s.traverse f added).1.children = (s.children.mapM f added).1 :=
    congrArg (fun c => (c added).1) (Shape.children_traverse f s)
  have first : (s.replaced f added).children.map (fun p => p.1.weight ω) = s.children.map (weight ω) := by
    rw [← Function.comp_def, ← List.map_map, ← Shape.children_map, Shape.replaced_fst]
  have second : (s.replaced f added).children.map (fun p => p.2.weight ω) =
      (s.children.mapM f added).1.map (weight ω) := by
    rw [← Function.comp_def, ← List.map_map, ← Shape.children_map, Shape.replaced_snd, answers]
  have whole := weight_le lighter
  have expands := weight_expands lighter
  rw [Shape.replaced_fst, Shape.replaced_snd] at whole expands
  rw [first, second] at expands
  show (Node.mk (s.traverse f added).1).weight ω ≤ _ ∧
    (Node.mk (s.traverse f added).1).weight ω + Additions.cost ω (s.traverse f added).2 ≤ _
  rw [state]
  exact ⟨whole, by omega⟩

theorem liftAggregates_saves (groups : List (Select Node)) (n : Node) : Saves ω n (liftAggregates groups n) := by
  induction n using Node.inductNode with
  | step s ih =>
    rw [liftAggregates_mk]
    split
    · rename_i label inGroup asQuery type
      split
      · rename_i group _
        intro added
        have cost := columnFor_cost (ω := ω) group inGroup added
        have reference : (Node.column ⟨label, (columnFor group inGroup added).1, type⟩).weight ω = ω label + 1 :=
          weight_column _
        show (Node.column ⟨label, (columnFor group inGroup added).1, type⟩).weight ω ≤ _ ∧
          (Node.column ⟨label, (columnFor group inGroup added).1, type⟩).weight ω +
            Additions.cost ω (columnFor group inGroup added).2 ≤ _
        rw [reference, weight_groupAggregate]
        omega
      · exact saves_traverse (s := .groupAggregate label inGroup asQuery type) ih
    · exact fun added => ⟨Nat.le_refl _, Nat.le_refl _⟩
    · exact fun added => ⟨Nat.le_refl _, Nat.le_refl _⟩
    · exact saves_traverse ih

theorem liftClauses_burden (groups : List (Select Node)) (q : Select Node) (added : Additions) :
    (liftClauses groups q added).1.burden ω + Additions.cost ω (liftClauses groups q added).2 ≤
      q.burden ω + added.cost ω := by
  -- The source is left alone, so it is set aside before the other children are counted.
  have loads (p : Select Node) : load (p.children.map (weight ω)) =
      load (p.source.toList.map (weight ω)) + p.burden ω := by
    have perm := p.children_perm.map (weight ω)
    rw [load_eq, perm.sum_eq, perm.length_eq, ← load_eq, List.map_append, load_append, Select.burden]
  have source : (liftClauses groups q added).1.source = q.source := rfl
  have tags : (Placement.tagged q).children.map (fun p => p.2.weight ω) = q.children.map (weight ω) := by
    have children : (Placement.tagged q).children.map Prod.snd = q.children :=
      (Shape.children_map Prod.snd (.select (Placement.tagged q))).symm.trans
        (congrArg Shape.children (Placement.tagged_snd q))
    rw [← children, List.map_map]
    rfl
  have lifts := Placement.liftClauses_eq groups q
  generalize tag : (fun p : Bool × Node => if p.1 then liftAggregates groups p.2 else pure p.2) = lift at lifts
  have each : ∀ p ∈ (Placement.tagged q).children, ∀ x,
      (lift p x).1.weight ω + Additions.cost ω (lift p x).2 ≤ p.2.weight ω + Additions.cost ω x := by
    rintro ⟨seen, c⟩ _ x
    subst tag
    cases seen with
    | true => exact (liftAggregates_saves groups c x).2
    | false => exact Nat.le_refl _
  have traversed := Shape.children_traverse lift (.select (Placement.tagged q))
  have answers : (liftClauses groups q added).1.children = ((Placement.tagged q).children.mapM lift added).1 := by
    rw [lifts]
    exact congrArg (fun c => (c added).1) traversed
  have state : (liftClauses groups q added).2 = ((Placement.tagged q).children.mapM lift added).2 := by
    rw [lifts]
    exact congrArg (fun c => (c added).2) traversed
  have total := mapM_load each added
  rw [tags, ← answers, ← state, loads, loads, source] at total
  omega

/-- Columns that may be declared by selects of their labels. -/
abbrev Additions.Allowed (ω : String → Nat) (added : Additions) : Prop :=
  Placement.Declared (fun label e => e.Bounded ω ∧ e.weight ω ≤ ω label) added

/-- A source grows by a factor for all that is added to it, whichever of its selects the columns belong to. -/
theorem addColumns_weight (added : Additions) (source : Node) :
    (source.mapSources (addColumns added)).weight ω ≤ source.weight ω * 2 ^ added.burden ω := by
  have one : 1 ≤ 2 ^ added.burden ω := Nat.one_le_two_pow
  induction source using inductNode with
  | step s ih =>
    cases s with
    | select p =>
      have few : load ((added.of p.label).map fun b => b.expr.weight ω) ≤ added.burden ω := by
        rw [Additions.of, List.map_map]
        exact load_sublist ((List.filter_sublist).map _)
      have burden : ({ p with columns := p.columns ++ added.of p.label } : Select Node).burden ω ≤
          p.burden ω + added.burden ω := by
        simp only [Select.burden, Select.held, Select.clauses, List.map_append, load_append, List.map_map,
          Function.comp_def] at few ⊢
        omega
      -- Added columns are held beside the source, so they add to the exponent of what the select weighs.
      have powers : 2 ^ (2 + ({ p with columns := p.columns ++ added.of p.label } : Select Node).burden ω) ≤
          2 ^ (2 + p.burden ω) * 2 ^ added.burden ω := by
        rw [← Nat.pow_add]
        exact Nat.pow_le_pow_right (by decide) (by omega)
      show (Node.select { p with columns := p.columns ++ added.of p.label }).weight ω ≤ _
      rw [weight_select, weight_select, Nat.add_mul (ω p.label), Nat.mul_assoc]
      exact Nat.add_le_add (Nat.le_mul_of_pos_right _ one) (Nat.mul_le_mul_left _ powers)
    | join kind left right condition =>
      have first := ih left (by simp [Shape.children])
      have second := ih right (by simp [Shape.children])
      show (Node.join kind (left.mapSources _) (right.mapSources _) condition).weight ω ≤ _
      rw [weight_join, weight_join]
      have rest := Nat.le_mul_of_pos_right (3 + load (condition.toList.map (weight ω))) one
      linarith
    | _ => exact Nat.le_mul_of_pos_right _ one

theorem addColumns_bounded {added : Additions} (allowed : added.Allowed ω) {source : Node}
    (bounded : source.Bounded ω) : (source.mapSources (addColumns added)).Bounded ω ∧
      (source.mapSources (addColumns added)).front ω = source.front ω := by
  induction source using inductNode with
  | step s ih =>
    cases s with
    | select p =>
      obtain ⟨own, below⟩ := bounded_select.mp bounded
      -- Columns are added under the label that they are allowed for.
      have extra : ∀ b ∈ added.of p.label, b.expr.Bounded ω ∧ b.expr.weight ω ≤ ω p.label := by
        intro b member
        obtain ⟨a, inAdded, rfl⟩ := List.mem_map.mp member
        obtain ⟨member, same⟩ := List.mem_filter.mp inAdded
        exact beq_iff_eq.mp same ▸ allowed a member
      refine ⟨bounded_select.mpr ⟨⟨fun b column named => ?_, own.source⟩, ?_⟩, rfl⟩
      · exact (List.mem_append.mp column).elim (fun old => own.columns b old named) fun new => (extra b new).2
      · obtain ⟨columns, rest⟩ := Select.forall_children.mp below
        exact Select.forall_children.mpr
          ⟨fun b column => (List.mem_append.mp column).elim (columns b) fun new => (extra b new).1, rest⟩
    | join kind left right condition =>
      have first := (ih left (by simp [Shape.children]) (bounded.child (by simp [Shape.children]))).1
      have second := (ih right (by simp [Shape.children]) (bounded.child (by simp [Shape.children]))).1
      refine ⟨bounded_mk.mpr ⟨trivial, fun c child => ?_⟩, rfl⟩
      simp only [Shape.children, List.mem_cons] at child
      rcases child with rfl | rfl | test
      · exact first
      · exact second
      · exact bounded.child (by simp [Shape.children, test])
    | _ => exact ⟨bounded, rfl⟩

/-- What a source gains as a factor is outweighed where as much and more is lost in the exponent. -/
theorem traded_lt {source source' burden burden' added : Nat} (grown : source' ≤ source * 2 ^ added)
    (saved : burden' + added < burden) : (1 + source') * 2 ^ (2 + burden') < (1 + source) * 2 ^ (2 + burden) := by
  have one : 1 ≤ 2 ^ added := Nat.one_le_two_pow
  have factor : 1 + source' ≤ (1 + source) * 2 ^ added := by linarith
  calc (1 + source') * 2 ^ (2 + burden')
      ≤ (1 + source) * 2 ^ added * 2 ^ (2 + burden') := Nat.mul_le_mul_right _ factor
    _ = (1 + source) * 2 ^ (2 + (burden' + added)) := by rw [Nat.mul_assoc, ← Nat.pow_add]; congr 2; omega
    _ < (1 + source) * 2 ^ (2 + burden) :=
      Nat.mul_lt_mul_of_pos_left (Nat.pow_lt_pow_right (by decide) (by omega)) (Nat.add_pos_left Nat.one_pos _)

theorem liftFrom_relieves {q : Select Node} {source : Node} (reads : q.source = some source) :
    TakesPlace (Relieves exact ω) (.select q) (.select (liftFrom source q)) := by
  refine relieves_iff.mpr fun before => ?_
  have place : BareFrame (Relieves exact ω) (fun _ => True) (fun _ => True) _ := relieves_frame
  obtain ⟨⟨sameSource, takes⟩, allowed⟩ := place.liftClauses source.sourceSelects
    (fun p member c inside e form => place.declares (.refl before) reads member inside form) []
    (fun a member => absurd member List.not_mem_nil)
  have label : (liftClauses source.sourceSelects q []).1.label = q.label := rfl
  have saved := liftClauses_burden (ω := ω) source.sourceSelects q []
  unfold liftFrom
  split
  · exact .refl before
  · rename_i lifted added nonempty found
    rw [found] at sameSource takes allowed saved label
    dsimp only at saved
    have lifts := (relieves_iff.mp takes before).bounded
    obtain ⟨own, below⟩ := bounded_select.mp lifts
    obtain ⟨bounded, front⟩ := addColumns_bounded allowed (below source (Select.source_child (sameSource.trans reads)))
    refine ⟨bounded_select.mpr ⟨⟨own.columns, fun s same => ?_⟩, ?_⟩, Nat.le_of_eq (congrArg (ω · + 1) label), .inl ?_⟩
    · exact Option.some.inj same ▸ front ▸ own.source source (sameSource.trans reads)
    · exact children_withSource below fun s same => Option.some.inj same ▸ bounded
    · -- The references that take the place of what is lifted make up for more than the columns that are added.
      have some : 1 ≤ added.length := List.length_pos_iff.mpr nonempty
      have none : Additions.cost ω [] = 0 := rfl
      have cost := Additions.cost_eq (ω := ω) added
      have less : lifted.burden ω + Additions.burden ω added < q.burden ω := by omega
      rw [weight_select, weight_select q, reads]
      have traded := traded_lt (addColumns_weight added source) less
      exact Nat.add_lt_add_of_le_of_lt (Nat.le_of_eq (congrArg ω label)) traded

theorem groupAggregates_relieves (n : Node) : TakesPlace (Relieves exact ω) n (groupAggregates.transform n) := by
  refine relieves_frame.mapUp (fun n => ?_) n
  unfold liftSelect
  split
  · split
    · rename_i source reads
      exact liftFrom_relieves reads
    · exact .refl _
  · exact .refl _

/-! ### Equal columns -/

theorem trim_own {dropped : Dropped} {p : Select Node} {f : Node → Node} (still : (dropped.trim p).map f = p) :
    dropped.trim p = p := by
  -- As many columns are left as there were.
  have sublist : (dropped.trim p).columns.Sublist p.columns := List.filter_sublist
  have names := congrArg (fun q => (q.columns.map (·.name)).length) still
  simp only [Select.names_map, List.length_map] at names
  have columns : p.columns.filter (fun b => dropped.keeps p.label b.name) = p.columns := sublist.eq_of_length names
  unfold Dropped.trim
  rw [columns]

theorem trim_still {dropped : Dropped} {n : Node} (still : n.mapUp (dropColumns dropped) = n) :
    ∀ q, .select q ∈ n.subtrees → dropped.trim q = q := by
  induction n using inductNode with
  | step s ih =>
    intro q member
    rw [mapUp_mk] at still
    have below (same : s.map (mapUp (dropColumns dropped)) = s) (c : Node) (child : c ∈ s.children) :
        c.mapUp (dropColumns dropped) = c := by
      have children := congrArg Shape.children same
      rw [Shape.children_map] at children
      exact List.map_inj_left.mp (children.trans (List.map_id _).symm) c child
    have deeper (same : s.map (mapUp (dropColumns dropped)) = s) (inside : .select q ∈ s.children.flatMap subtrees) :
        dropped.trim q = q := by
      obtain ⟨c, child, inside⟩ := List.mem_flatMap.mp inside
      exact ih c child (below same c child) q inside
    rw [subtrees_mk] at member
    cases s with
    | select p =>
      have trimmed : (dropped.trim p).map (mapUp (dropColumns dropped)) = p := by
        have select := Dropped.dropColumns_select dropped (p.map (mapUp (dropColumns dropped)))
        rw [Dropped.trim_map] at select
        simpa using select.symm.trans still
      -- Its own columns stay first of all, and with them its children are what they were.
      have own := trim_own trimmed
      rw [own] at trimmed
      rcases List.mem_cons.mp member with same | inside
      · cases same
        exact own
      · exact deeper (congrArg Shape.select trimmed) inside
    | _ =>
      rcases List.mem_cons.mp member with same | inside
      · cases same
      · exact deeper (Node.mk.inj still) inside

theorem Dropped.find_nonempty {n : Node} : ∀ e ∈ Dropped.find n, e.2 ≠ [] := by
  refine List.foldlRecOn (motive := fun dropped : Dropped => ∀ e ∈ dropped, e.2 ≠ []) (Dropped.sources n) Dropped.insert
    (fun _ member => absurd member List.not_mem_nil) fun dropped before s _ e member => ?_
  unfold Dropped.insert at member
  split at member
  · exact before e member
  · rename_i nonempty
    rcases List.mem_cons.mp member with rfl | inside
    · exact nonempty
    · exact before e (List.mem_filter.mp inside).1

theorem dropColumns_drops {n : Node} (found : Dropped.find n ≠ []) : n.mapUp (dropColumns (Dropped.find n)) ≠ n := by
  intro still
  have nonempty := Dropped.find_nonempty (n := n)
  obtain ⟨e, rest, listed⟩ := List.exists_cons_of_ne_nil found
  have member : e ∈ Dropped.find n := listed ▸ List.mem_cons_self
  obtain ⟨s, source, rfl⟩ := Dropped.find_mem member
  obtain ⟨d, duplicate⟩ := List.exists_mem_of_ne_nil _ (nonempty _ member)
  obtain ⟨-, c, column, named, -⟩ := Duplicate.of_mem duplicate
  have kept := trim_still still s (Dropped.sources_mem source)
  have here : c ∈ ((Dropped.find n).trim s).columns := by
    rw [kept]
    exact List.mem_of_mem_tail column
  have keeps := (List.mem_filter.mp here).2
  have own : (Dropped.find n).of? s.label = some (Duplicate.of s) := by
    rw [listed, Dropped.of?, List.find?_cons_of_pos (by simp)]
    rfl
  simp only [Dropped.keeps, Dropped.duplicate?, own, Option.bind_some, Option.isNone_iff_eq_none,
    List.find?_eq_none] at keeps
  exact keeps d duplicate (by simp [named])

theorem equalColumns_relieves (n : Node) : TakesPlace (Relieves exact ω) n (equalColumns.transform n) := by
  have dropped (exact : Prop) : TakesPlace (Relieves exact ω) n (n.mapUp (dropColumns (Dropped.find n))) := by
    refine relieves_frame.mapUp (fun n => ?_) n
    unfold dropColumns
    split
    · split
      · exact takes_fewer List.filter_sublist
      · exact .refl _
    · exact .refl _
  let mappings := (Dropped.find n).map fun e => Dropped.mapping e.1 e.2
  show TakesPlace _ n (Mapping.follow mappings (Mapping.maxDepth mappings) (n.mapUp (dropColumns (Dropped.find n))))
  by_cases none : Dropped.find n = []
  · have nothing : mappings = [] := congrArg (List.map _) none
    rw [nothing, Mapping.follow_nil]
    exact dropped exact
  · -- References turn to columns of the same label, which are as heavy; some column is dropped, though.
    have sameLabel : ∀ m ∈ mappings, m.Faithful (Relieves False ω) := by
      intro m member
      obtain ⟨e, -, rfl⟩ := List.mem_map.mp member
      refine .of (fun b column c same => ?_) fun _ passes => absurd passes (by simp [Dropped.mapping])
      obtain ⟨d, -, rfl⟩ := List.mem_map.mp column
      exact takes_sameLabel same.symm
    refine relieves_iff.mpr fun before => ?_
    have fewer := relieves_iff.mp (dropped True) before
    have less := fewer.weight.resolve_right fun same => dropColumns_drops none (same.2 trivial)
    have turned := relieves_frame.follow sameLabel (Mapping.maxDepth mappings) _ _ (.refl fewer.bounded)
    exact ⟨turned.bounded, turned.front.trans fewer.front, .inl (Nat.lt_of_le_of_lt turned.le less)⟩

/-! ### Rounds -/

theorem all_relieve : ∀ pass ∈ all, ∀ n, TakesPlace (Relieves exact ω) n (pass.transform n) := by
  intro pass member
  have byRule {rule : Node → Node} (member : rule ∈ rules) (n : Node) :
      TakesPlace (Relieves exact ω) n (n.mapUp rule) := relieves_frame.mapUp (rules_relieve rule member) n
  simp only [all, List.mem_cons, List.not_mem_nil, or_false] at member
  rcases member with rfl | rfl | rfl | rfl | rfl | rfl | rfl | rfl | rfl | rfl | rfl | rfl
  · exact relieves_frame.groupKeys
  · exact groupAggregates_relieves
  · exact relieves_frame.unusedColumns
  · exact equalColumns_relieves
  · exact relieves_frame.sources
  all_goals exact byRule (by simp [rules])

end QueryTree.Pass

namespace QueryTree

open Node

variable {ω : String → Nat}

/-- A round leaves a tree as it is or makes it lighter. -/
theorem Pipeline.round_relieves {n : Node} (bounded : n.Bounded ω) : Relieves True ω n (standard.round n) :=
  List.foldlRecOn (motive := Relieves True ω n) _ _ (.refl bounded)
    fun m relieves pass member => Pass.all_relieve pass member m n relieves

end QueryTree
