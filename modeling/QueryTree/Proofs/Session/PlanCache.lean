import QueryTree.Dialect.Shipped
import QueryTree.Proofs.Command.SharedText
import QueryTree.Session.Provider

/-! Plans that are kept answer like plans made anew.

A kept plan was made for some query, and is given to any whose key is equal. Equal keys have one text without
the literals and one projector, and each query binds its own values. So what a provider answers does not depend
on what was asked before: every entry of the cache is the plan of a query with that key, whatever was dropped.
-/

set_option autoImplicit false

namespace QueryTree

/-! ### Projections -/

section Columns

variable {α β : Type} (f : α → β) (s : Select α)

theorem Select.projectsStar_map : (s.map f).projectsStar = s.projectsStar := by
  simp only [Select.projectsStar, Select.map, List.isEmpty_map, List.any_map, Function.comp_def, Binding.isWildcard,
    Binding.map]

theorem Select.columnIndex?_map (name : String) : (s.map f).columnIndex? name = s.columnIndex? name := by
  simp only [Select.columnIndex?, Select.map, List.findIdx?_map, Function.comp_def, Binding.map]

end Columns

namespace Projector

theorem column_of_look {a b : Node} (same : a.look = b.look) (name : String) (type : DataType) :
    column a.select? name type = column b.select? name type := by
  refine Node.eq_of_look (fun n => column n.select? name type) (fun s => ?_) same
  cases s with
  | select q =>
    simp only [Node.select?, column, Node.ofLook, Shape.map, Select.projectsStar_map, Select.columnIndex?_map]
  | _ => rfl

variable {a b : Node}

mutual

theorem step_of_alike (roots : a.look = b.look) :
    ∀ {p q : Projection}, p.alike q = true → step a.select? p = step b.select? q
  | .column name type, q, same => by
    cases q with
    | column name' type' =>
      simp only [Projection.alike, Bool.and_eq_true, beq_iff_eq] at same
      -- A column is the only part that asks for the query, and it looks no further than names.
      obtain ⟨rfl, rfl⟩ := same
      simp only [step, column_of_look roots]
    | _ => exact absurd same (by simp [Projection.alike])
  | .constant value, q, same => by
    cases q with
    | constant value' => simp only [step]
    | _ => exact absurd same (by simp [Projection.alike])
  | .argument index, q, same => by
    cases q with
    | argument index' =>
      obtain rfl : index = index' := by simpa [Projection.alike] using same
      rfl
    | _ => exact absurd same (by simp [Projection.alike])
  | .entity name fields, q, same => by
    cases q with
    | entity name' fields' =>
      simp only [Projection.alike, Bool.and_eq_true, beq_iff_eq] at same
      obtain ⟨rfl, same⟩ := same
      simp only [step, stepBindings_of_alike roots same]
    | _ => exact absurd same (by simp [Projection.alike])
  | .tuple items, q, same => by
    cases q with
    | tuple items' => simp only [step, stepList_of_alike roots (by simpa only [Projection.alike] using same)]
    | _ => exact absurd same (by simp [Projection.alike])
  | .nested ⟨root, projection, elementType, parameters, arguments⟩ correlations, q, same => by
    cases q with
    | nested query correlations' =>
      simp only [Projection.alike, Bool.and_eq_true] at same
      simp only [step, stepBindings_of_alike roots same.2]
    | _ => exact absurd same (by simp [Projection.alike])

theorem stepList_of_alike (roots : a.look = b.look) :
    ∀ {ps qs : List Projection}, Projection.alikeList ps qs = true → stepList a.select? ps = stepList b.select? qs
  | [], qs, same => by
    cases qs with
    | nil => simp only [stepList]
    | cons => exact absurd same (by simp [Projection.alikeList])
  | p :: ps, qs, same => by
    cases qs with
    | nil => exact absurd same (by simp [Projection.alikeList])
    | cons q qs =>
      simp only [Projection.alikeList, Bool.and_eq_true] at same
      simp only [stepList, step_of_alike roots same.1, stepList_of_alike roots same.2]

theorem stepBindings_of_alike (roots : a.look = b.look) : ∀ {ps qs : List (Binding Projection)},
    Projection.alikeBindings ps qs = true → stepBindings a.select? ps = stepBindings b.select? qs
  | [], qs, same => by
    cases qs with
    | nil => simp only [stepBindings]
    | cons => exact absurd same (by simp [Projection.alikeBindings])
  | ⟨name, p⟩ :: ps, qs, same => by
    cases qs with
    | nil => exact absurd same (by simp [Projection.alikeBindings])
    | cons q qs =>
      obtain ⟨name', q⟩ := q
      simp only [Projection.alikeBindings, Bool.and_eq_true, beq_iff_eq] at same
      obtain ⟨⟨rfl, here⟩, there⟩ := same
      simp only [stepBindings, step_of_alike roots here, stepBindings_of_alike roots there]

end

theorem compile_of_alike (roots : a.look = b.look) {p q : Option Projection}
    (same : Projection.alikeOption p q = true) : compile p a = compile q b := by
  cases p with
  | none =>
    cases q with
    | none => rfl
    | some q => exact absurd same (by simp [Projection.alikeOption])
  | some p =>
    cases q with
    | none => exact absurd same (by simp [Projection.alikeOption])
    | some q => simp only [compile, step_of_alike roots (by simpa only [Projection.alikeOption] using same)]

end Projector

/-! ### The cache -/

namespace Cache

variable {κ ν ε : Type} [BEq κ]

/-- Every entry is what its key may have. -/
def Sound (good : κ → ν → Prop) (c : Cache κ ν) : Prop := ∀ entry ∈ c.entries, good entry.1 entry.2

variable {good : κ → ν → Prop} {c : Cache κ ν} {key : κ} {compile : κ → Except ε ν}

omit [BEq κ] in
theorem sound_ofCapacity (capacity : Nat) : (ofCapacity capacity : Cache κ ν).Sound good := by
  intro entry member
  simp [ofCapacity] at member

omit [BEq κ] in
theorem sound_insert (sound : c.Sound good) {value : ν} (here : good key value) : (c.insert key value).Sound good := by
  intro entry member
  rcases List.mem_cons.mp member with rfl | member
  · exact here
  -- A full cache is emptied first, and then nothing is left of the old entries.
  · split at member
    · simp at member
    · exact sound entry member

theorem sound_getOrCompile (sound : c.Sound good) (compiled : ∀ v, compile key = .ok v → good key v) :
    (getOrCompile key compile c).2.Sound good := by
  unfold getOrCompile
  split
  · exact sound
  · split
    next value found => exact sound_insert sound (compiled value found)
    next => exact sound

/-- An answer was made now, or is kept under an equal key. -/
theorem getOrCompile_answer (sound : c.Sound good) :
    (getOrCompile key compile c).1 = compile key ∨
      ∃ k value, (k == key) = true ∧ good k value ∧ (getOrCompile key compile c).1 = .ok value := by
  unfold getOrCompile
  split
  next value found =>
    right
    obtain ⟨entry, listed, rfl⟩ := Option.map_eq_some_iff.mp found
    have equal := List.find?_some listed
    exact ⟨entry.1, entry.2, equal, sound entry (List.mem_of_find?_eq_some listed), rfl⟩
  next =>
    left
    split
    next value found => exact found.symm
    next error found => exact found.symm

end Cache

/-! ### Preparing -/

namespace Planner

variable (p : Planner)

def key (q : BoundQuery) : PlanKey := ⟨p.settle q.root, q.projection⟩

/-- The tree of a query without its literals. -/
def tree (q : BoundQuery) : Node := (p.settle q.root).extractLiterals.1

/-- A plan that was made for a query with that key. -/
def Made (key : PlanKey) (plan : Plan) : Prop := ∃ q, key = p.key q ∧ p.compile q (p.tree q) = .ok plan

/-- Queries with equal keys have the same text with the same slots, and the same projector. -/
theorem parts_of_key {q q' : BoundQuery} (same : (p.key q == p.key q') = true) :
    p.dialect.format (p.tree q) = p.dialect.format (p.tree q') ∧
      Projector.compile q.projection (p.tree q) = Projector.compile q'.projection (p.tree q') := by
  have same : ((p.settle q.root).alike .literals (p.settle q'.root) &&
    Projection.alikeOption q.projection q'.projection) = true := same
  simp only [Bool.and_eq_true] at same
  obtain ⟨shapes, projections⟩ := same
  refine ⟨format_of_alike p.dialect shapes, Projector.compile_of_alike ?_ projections⟩
  have like := (like_of_alike p.dialect shapes (rfl : ([] : List Value).length = [].length)).1.whole.node
  rw [Dialect.spell_node, Dialect.spell_node] at like
  exact like.resolve_right fun taken => taken.1

end Planner

/-- What a prepared query is, but for the type its results are read as. -/
def Prepared.outcome (r : Prepared) : Formatted × Projector × Command :=
  (r.plan.formatted, r.plan.projector, r.command)

namespace Planner

variable (p : Planner)

/-- A plan with the command of one query. -/
def bound (q : BoundQuery) (plan : Plan) : Except CompileError Prepared := do
  return ⟨plan, ← plan.formatted.bind (p.settle q.root).extractLiterals.2 q.parameters⟩

theorem prepare_run (q : BoundQuery) (c : PlanCache) : p.prepare q c =
    ((Cache.getOrCompile (p.key q) (fun _ => p.compile q (p.tree q)) c).1 >>= p.bound q,
      (Cache.getOrCompile (p.key q) (fun _ => p.compile q (p.tree q)) c).2) := by
  show (Cache.getOrCompile (p.key q) (fun _ => p.compile q (p.tree q)) >>= fun plan =>
    ExceptT.mk (pure (plan.formatted.bind (p.settle q.root).extractLiterals.2 q.parameters)) >>= fun command =>
    pure (⟨plan, command⟩ : Prepared)) c = _
  simp only [bind, ExceptT.bind, ExceptT.mk, StateT.bind]
  rcases Cache.getOrCompile (p.key q) (fun _ => p.compile q (p.tree q)) c with ⟨plan | plan, after⟩
  · rfl
  · simp only [ExceptT.bindCont, Except.bind, bound]
    cases plan.formatted.bind (p.settle q.root).extractLiterals.2 q.parameters with
    | error e => rfl
    | ok command => rfl

theorem compile_eq_ok {q : BoundQuery} {tree : Node} {plan : Plan} (compiled : p.compile q tree = .ok plan) :
    p.dialect.format tree = .ok plan.formatted ∧ Projector.compile q.projection tree = .ok plan.projector ∧
      plan.elementType = q.elementType := by
  unfold compile at compiled
  cases formatted : p.dialect.format tree with
  | error e => rw [formatted] at compiled; cases compiled
  | ok f =>
    cases projector : Projector.compile q.projection tree with
    | error e => rw [formatted, projector] at compiled; cases compiled
    | ok r =>
      rw [formatted, projector] at compiled
      cases compiled
      exact ⟨rfl, rfl, rfl⟩

/-- What a query has when it is prepared with the plan made for it. -/
def answer (q : BoundQuery) : Except CompileError (Formatted × Projector × Command) :=
  (p.compile q (p.tree q) >>= p.bound q).map Prepared.outcome

/-- A plan made for a query with an equal key serves as well. -/
theorem answer_of_made {q : BoundQuery} {k : PlanKey} {plan : Plan} (equal : (k == p.key q) = true)
    (made : p.Made k plan) : (p.bound q plan).map Prepared.outcome = p.answer q := by
  obtain ⟨other, rfl, compiled⟩ := made
  obtain ⟨texts, projectors⟩ := p.parts_of_key equal
  obtain ⟨formatted, projector, -⟩ := p.compile_eq_ok compiled
  rw [texts] at formatted
  rw [projectors] at projector
  have own : p.compile q (p.tree q) = .ok { plan with elementType := q.elementType } := by
    unfold compile
    rw [formatted, projector]
    rfl
  unfold answer
  rw [own]
  show _ = (p.bound q { plan with elementType := q.elementType }).map Prepared.outcome
  unfold bound
  cases plan.formatted.bind (p.settle q.root).extractLiterals.2 q.parameters with
  | error e => rfl
  | ok command => rfl

theorem prepare_answer (q : BoundQuery) {c : PlanCache} (sound : c.Sound p.Made) :
    (p.prepare q c).1.map Prepared.outcome = p.answer q ∧ (p.prepare q c).2.Sound p.Made := by
  rw [prepare_run]
  refine ⟨?_, Cache.sound_getOrCompile sound fun plan compiled => ⟨q, rfl, compiled⟩⟩
  rcases Cache.getOrCompile_answer sound with now | ⟨k, plan, equal, made, kept⟩
  · show Except.map Prepared.outcome (_ >>= p.bound q) = _
    rw [now]
    rfl
  · show Except.map Prepared.outcome (_ >>= p.bound q) = _
    rw [kept]
    exact p.answer_of_made equal made

end Planner

namespace Provider

variable {σ : Type} (p : Provider σ)

/-- What a caller of `prepare` gets. -/
def outcome (r : Except QueryError Prepared) : Except QueryError (Formatted × Projector × Command) :=
  r.map Prepared.outcome

theorem prepare_outcome (q : BoundQuery) {s : Session σ} (sound : s.plans.Sound p.planner.Made) :
    outcome ((p.prepare q).run s).1 = (p.planner.answer q).mapError .compile ∧
      ((p.prepare q).run s).2.plans.Sound p.planner.Made := by
  obtain ⟨answer, kept⟩ := p.planner.prepare_answer q sound
  refine ⟨?_, kept⟩
  rw [← answer]
  show ((p.planner.prepare q s.plans).1.mapError QueryError.compile).map Prepared.outcome = _
  cases (p.planner.prepare q s.plans).1 with
  | error e => rfl
  | ok r => rfl

theorem prepares_outcome (qs : List BoundQuery) : ∀ {s : Session σ}, s.plans.Sound p.planner.Made →
    ((qs.mapM fun q => (p.prepare q).run) s).1.map outcome =
      qs.map fun q => (p.planner.answer q).mapError .compile := by
  induction qs with
  | nil =>
    intro s _
    rfl
  | cons q rest ih =>
    intro s sound
    obtain ⟨here, kept⟩ := p.prepare_outcome q sound
    have split : ((q :: rest).mapM (fun q => (p.prepare q).run) s).1 =
        ((p.prepare q).run s).1 :: (rest.mapM (fun q => (p.prepare q).run) ((p.prepare q).run s).2).1 := by
      simp only [List.mapM_cons]
      rfl
    rw [split, List.map_cons, List.map_cons, here, ih kept]

/-- Every call in any order of calls gives what it gives with an empty cache; and queries with equal keys have one
text and one projector. -/
theorem prepare_transparent (capacity : Nat) (channel : Channel σ) :
    (∀ qs : List BoundQuery,
      ((qs.mapM fun q => (p.prepare q).run) { plans := .ofCapacity capacity, channel }).1.map outcome =
        qs.map fun q => outcome ((p.prepare q).run { plans := .ofCapacity capacity, channel }).1) ∧
    ∀ q q' : BoundQuery, (p.planner.key q == p.planner.key q') = true →
      p.planner.dialect.format (p.planner.tree q) = p.planner.dialect.format (p.planner.tree q') ∧
        Projector.compile q.projection (p.planner.tree q) = Projector.compile q'.projection (p.planner.tree q') := by
  refine ⟨fun qs => ?_, fun q q' same => p.planner.parts_of_key same⟩
  rw [p.prepares_outcome qs (Cache.sound_ofCapacity capacity)]
  refine List.map_congr_left fun q _ => ?_
  exact (p.prepare_outcome q (Cache.sound_ofCapacity capacity)).1.symm

/-- Two queries for a literal of their own. -/
theorem prepare_transparent_literals :
    let p : Provider Unit :=
      { planner := { dialect := .postgres, pipeline := none }
        database := ⟨fun _ => pure (.error ""), fun _ => pure (.error ""), fun _ => pure (.error "")⟩ }
    let q (n : Int32) : BoundQuery := { root := .select { label := "q", columns := [⟨"n", .constant (.int32 n) .int32⟩] } }
    (p.planner.key (q 1) == p.planner.key (q 2)) = true ∧
      p.planner.dialect.format (p.planner.tree (q 1)) = p.planner.dialect.format (p.planner.tree (q 2)) := by
  intro p q
  have same : (p.planner.key (q 1) == p.planner.key (q 2)) = true := by
    unfold p q
    decide +kernel
  exact ⟨same, ((p.prepare_transparent 1 { state := () }).2 (q 1) (q 2) same).1⟩

end Provider

end QueryTree
