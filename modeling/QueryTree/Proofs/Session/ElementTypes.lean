import QueryTree.Proofs.Projection.Outline
import QueryTree.Proofs.Session.PlanCache

/-! Whose element type a plan carries.

The type the results of a query are read as is kept with its plan but is not part of the key. So a plan carries the
type of some query with that key that was prepared so far: its own where queries of one key have one type, and else,
it may be, that of an earlier one.
-/

set_option autoImplicit false

namespace QueryTree

namespace Planner

variable (p : Planner)

theorem key_self (q : BoundQuery) : (p.key q == p.key q) = true := by
  have shape : (p.settle q.root).alike .literals (p.settle q.root) = true := Node.alike_iff_erase.mpr rfl
  have projection : Projection.alikeOption q.projection q.projection = true :=
    (Projection.alikeOption_iff_outline _ _).mpr rfl
  exact Bool.and_eq_true_iff.mpr ⟨shape, projection⟩

/-- A plan that was made for one of some queries, which has that key. -/
def MadeAmong (qs : List BoundQuery) (key : PlanKey) (plan : Plan) : Prop :=
  ∃ q ∈ qs, key = p.key q ∧ p.compile q (p.tree q) = .ok plan

variable {p}

theorem MadeAmong.mono {qs qs' : List BoundQuery} (more : ∀ q ∈ qs, q ∈ qs') {key : PlanKey} {plan : Plan} :
    p.MadeAmong qs key plan → p.MadeAmong qs' key plan := fun ⟨q, mem, made⟩ => ⟨q, more q mem, made⟩

theorem compile_of_key {q q' : BoundQuery} (same : (p.key q' == p.key q) = true)
    (types : q'.elementType = q.elementType) : p.compile q' (p.tree q') = p.compile q (p.tree q) := by
  obtain ⟨texts, projectors⟩ := p.parts_of_key same
  simp only [compile, texts, projectors, types]

variable (p)

/-- The answer to `q`, with the plan of another query. -/
def answerWith (q other : BoundQuery) : Except CompileError Prepared :=
  p.compile other (p.tree other) >>= p.bound q

variable {p}

theorem answerWith_elementType {q other : BoundQuery} {r : Prepared} (answered : p.answerWith q other = .ok r) :
    r.plan.elementType = other.elementType := by
  unfold answerWith at answered
  cases compiled : p.compile other (p.tree other) with
  | error e => rw [compiled] at answered; cases answered
  | ok plan =>
    rw [compiled] at answered
    change p.bound q plan = .ok r at answered
    unfold bound at answered
    cases command : plan.formatted.bind (p.settle q.root).extractLiterals.2 q.parameters with
    | error e => rw [command] at answered; cases answered
    | ok c =>
      rw [command] at answered
      cases answered
      exact (p.compile_eq_ok compiled).2.2

theorem prepare_among {qs : List BoundQuery} (q : BoundQuery) {c : PlanCache} (sound : c.Sound (p.MadeAmong qs)) :
    (∃ other ∈ q :: qs, (p.key other == p.key q) = true ∧ (p.prepare q c).1 = p.answerWith q other) ∧
      (p.prepare q c).2.Sound (p.MadeAmong (q :: qs)) := by
  rw [prepare_run]
  have kept : c.Sound (p.MadeAmong (q :: qs)) := fun entry mem =>
    (sound entry mem).mono fun _ mem => List.mem_cons_of_mem _ mem
  refine ⟨?_, Cache.sound_getOrCompile kept fun plan compiled => ⟨q, List.mem_cons_self, rfl, compiled⟩⟩
  have source := @Cache.getOrCompile_answer _ _ CompileError _ _ _ (p.key q) (fun _ => p.compile q (p.tree q)) sound
  rcases source with now | ⟨k, plan, equal, ⟨other, mem, rfl, compiled⟩, found⟩
  · exact ⟨q, List.mem_cons_self, p.key_self q, by rw [now]; rfl⟩
  · exact ⟨other, List.mem_cons_of_mem _ mem, equal, by rw [found, answerWith, compiled]⟩

end Planner

namespace Provider

variable {σ : Type} (p : Provider σ)

/-- Where a provider is after some queries were prepared, the first one first. -/
def prepared (qs : List BoundQuery) (s : Session σ) : Session σ := qs.foldl (fun s q => ((p.prepare q).run s).2) s

theorem prepared_among : ∀ (before : List BoundQuery) {asked : List BoundQuery} {s : Session σ},
    s.plans.Sound (p.planner.MadeAmong asked) →
      (p.prepared before s).plans.Sound (p.planner.MadeAmong (before ++ asked))
  | [], _, _, sound => sound
  | q :: before, asked, s, sound => by
    -- The plans after the first call are of the queries asked so far and of `q`.
    have once : ((p.prepare q).run s).2.plans.Sound (p.planner.MadeAmong (q :: asked)) :=
      (Planner.prepare_among q sound).2
    refine fun entry mem => (prepared_among before once entry mem).mono fun other mem => ?_
    rcases List.mem_append.mp mem with mem | mem
    · exact List.mem_cons_of_mem _ (List.mem_append_left _ mem)
    · rcases List.mem_cons.mp mem with rfl | mem
      · exact List.mem_cons_self
      · exact List.mem_cons_of_mem _ (List.mem_append_right _ mem)

variable (capacity : Nat) (channel : Channel σ) (before : List BoundQuery) (q : BoundQuery)

/-- After any history the answer is the one with the plan of some query of it that has an equal key, or its own. -/
theorem prepare_after : ∃ other ∈ q :: before, (p.planner.key other == p.planner.key q) = true ∧
    ((p.prepare q).run (p.prepared before { plans := .ofCapacity capacity, channel })).1 =
      (p.planner.answerWith q other).mapError .compile := by
  have sound := p.prepared_among before (s := { plans := .ofCapacity capacity, channel })
    (Cache.sound_ofCapacity capacity : Cache.Sound (p.planner.MadeAmong []) _)
  rw [List.append_nil] at sound
  obtain ⟨⟨other, mem, equal, answer⟩, -⟩ := Planner.prepare_among q sound
  exact ⟨other, mem, equal, congrArg (Except.mapError QueryError.compile) answer⟩

/-- A plan carries the element type of a query with an equal key. -/
theorem prepare_elementType {r : Prepared}
    (answered : ((p.prepare q).run (p.prepared before { plans := .ofCapacity capacity, channel })).1 = .ok r) :
    ∃ other ∈ q :: before, (p.planner.key other == p.planner.key q) = true ∧
      r.plan.elementType = other.elementType := by
  obtain ⟨other, mem, equal, answer⟩ := p.prepare_after capacity channel before q
  rw [answer] at answered
  cases made : p.planner.answerWith q other with
  | error e => rw [made] at answered; cases answered
  | ok r' =>
    rw [made] at answered
    cases answered
    exact ⟨other, mem, equal, Planner.answerWith_elementType made⟩

/-- Where queries with an equal key have the element type of `q`, no history changes its answer. -/
theorem prepare_own (types : ∀ other ∈ before,
    (p.planner.key other == p.planner.key q) = true → other.elementType = q.elementType) :
    ((p.prepare q).run (p.prepared before { plans := .ofCapacity capacity, channel })).1 =
      ((p.prepare q).run { plans := .ofCapacity capacity, channel }).1 := by
  have own : ∀ other ∈ q :: before, (p.planner.key other == p.planner.key q) = true →
      p.planner.answerWith q other = p.planner.answerWith q q := by
    intro other mem equal
    have types : other.elementType = q.elementType := by
      rcases List.mem_cons.mp mem with rfl | mem
      · rfl
      · exact types other mem equal
    rw [Planner.answerWith, Planner.compile_of_key equal types, Planner.answerWith]
  obtain ⟨other, mem, equal, answer⟩ := p.prepare_after capacity channel before q
  -- With no history the plan is the query's own.
  obtain ⟨alone, here, same, fresh⟩ := p.prepare_after capacity channel [] q
  have here : alone ∈ q :: before := by
    rw [List.mem_singleton.mp here]
    exact List.mem_cons_self
  rw [answer, own other mem equal, ← own alone here same, ← fresh]
  rfl

/-- One query for integers of two widths: the second time the plan of the first one is given. -/
theorem elementType_shared :
    let p : Provider Unit :=
      { planner := { dialect := .postgres, pipeline := none }
        database := ⟨fun _ => pure (.error ""), fun _ => pure (.error ""), fun _ => pure (.error "")⟩ }
    let q (type : DataType) : BoundQuery :=
      { root := .select { label := "q", columns := [⟨"n", .constant (.int32 1) .int32⟩] }, elementType := type }
    let fresh : Session Unit := { plans := .ofCapacity 8, channel := { state := () } }
    (((p.prepare (q .int64)).run (p.prepared [q .int32] fresh)).1.toOption.map (·.plan.elementType)) = some .int32 ∧
      (((p.prepare (q .int64)).run fresh).1.toOption.map (·.plan.elementType)) = some .int64 := by
  decide +kernel

end Provider

end QueryTree
