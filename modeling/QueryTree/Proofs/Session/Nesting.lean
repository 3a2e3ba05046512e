import QueryTree.Proofs.Session.Readers

/-! Limits that are never met.

A query runs those nested in it down to the depth that its projection has, and its results are taken up to the number
of rows there are to read. Both are only there for the recursion to end: nested queries stand less deep than the query
they stand in, and each result leaves one row less to read. So a nested query is listed as any other query is, and more
results are not there to be taken.
-/

set_option autoImplicit false

namespace QueryTree

/-! ### Depth -/

namespace Projection

variable {q : BoundQuery}

theorem depth_nested (query : BoundQuery) (correlations : List (Binding Projection)) :
    depth (.nested query correlations) = max (query.depth + 1) (depthOfBindings correlations) := by
  obtain ⟨root, projection, elementType, parameters, arguments⟩ := query
  rw [depth]
  rfl

mutual

theorem depth_values : ∀ p : Projection, ∀ q ∈ p.values.nested, q.depth < p.depth
  | .column .., q, member | .constant _, q, member | .argument _, q, member => by
    simp [values] at member
  | .entity name fields, q, member => by
    rw [values] at member
    rw [depth]
    exact depth_bindings fields q member
  | .tuple items, q, member => by
    rw [values] at member
    rw [depth]
    exact depth_list items q member
  | .nested query correlations, q, member => by
    rw [values] at member
    rw [depth_nested]
    rcases List.mem_append.mp member with own | below
    · rw [List.mem_singleton.mp own]
      omega
    · have deeper := depth_bindings correlations q below
      omega

theorem depth_list : ∀ ps : List Projection, ∀ q ∈ (valuesOfList ps).nested, q.depth < depthOfList ps
  | [], q, member => by simp [valuesOfList] at member
  | p :: rest, q, member => by
    rw [valuesOfList] at member
    rw [depthOfList]
    rcases List.mem_append.mp member with first | later
    · have deeper := depth_values p q first
      omega
    · have deeper := depth_list rest q later
      omega

theorem depth_bindings : ∀ bs : List (Binding Projection), ∀ q ∈ (valuesOfBindings bs).nested,
    q.depth < depthOfBindings bs
  | [], q, member => by simp [valuesOfBindings] at member
  | ⟨name, p⟩ :: rest, q, member => by
    rw [valuesOfBindings] at member
    rw [depthOfBindings]
    rcases List.mem_append.mp member with first | later
    · have deeper := depth_values p q first
      omega
    · have deeper := depth_bindings rest q later
      omega

end

end Projection

theorem Query.depth_nested {query q : BoundQuery} (nested : q ∈ query.values.nested) : q.depth < query.depth := by
  obtain ⟨root, projection, elementType, parameters, arguments⟩ := query
  cases projection with
  | none => simp [Query.values] at nested
  | some p => exact Projection.depth_values p q nested

/-! ### Runs that agree on the nested queries -/

section Agreement

variable {σ : Type}

/-- Two ways to run queries that come to the same on these, whatever their parameters. -/
def RunsAlike (queries : List BoundQuery) (run run' : Run σ) : Prop :=
  ∀ q ∈ queries, ∀ given, run (Query.withParameters q given) = run' (Query.withParameters q given)

namespace Step

variable {s : Surroundings (StateM (Session σ))} {run : Run σ} {r : Row}

mutual

theorem eval_agree (agree : RunsAlike s.values.nested s.run run) : ∀ step : Step, step.eval s r = step.eval { s with run } r
  | .row => by rw [eval, eval]
  | .place .. => by rw [eval, eval]
  | .named .. => by rw [eval, eval]
  | .constant number => by
    rw [eval, eval]
    rfl
  | .argument index => by
    rw [eval, eval]
    rfl
  | .entity name fields => by
    rw [eval, eval, evalFields_agree agree fields]
  | .tuple items => by
    rw [eval, eval, evalList_agree agree items]
  | .nested number correlations => by
    rw [eval, eval, evalCorrelations_agree agree correlations]
    have same : ({ s with run } : Surroundings (StateM (Session σ))).nested number = s.nested number := rfl
    rw [same]
    cases found : s.nested number with
    | error e => rfl
    | ok query =>
      have listed : query ∈ s.values.nested := by
        unfold Surroundings.nested at found
        split at found <;> cases found
        exact List.mem_of_getElem? ‹_›
      have runs (given : List (String × Value)) : (return Materialized.list (← s.run (query.withParameters given))) =
          (return .list (← run (query.withParameters given)) : ExceptT QueryError (StateM (Session σ)) _) := by
        rw [agree query listed given]
      exact bind_congr (x := evalCorrelations { s with run } r correlations) runs

theorem evalList_agree (agree : RunsAlike s.values.nested s.run run) :
    ∀ steps : List Step, evalList s r steps = evalList { s with run } r steps
  | [] => by rw [evalList, evalList]
  | step :: rest => by rw [evalList, evalList, eval_agree agree step, evalList_agree agree rest]

theorem evalFields_agree (agree : RunsAlike s.values.nested s.run run) : ∀ steps : List (Binding Step),
    evalFields s r steps = evalFields { s with run } r steps
  | [] => by rw [evalFields, evalFields]
  | ⟨name, step⟩ :: rest => by rw [evalFields, evalFields, eval_agree agree step, evalFields_agree agree rest]

theorem evalCorrelations_agree (agree : RunsAlike s.values.nested s.run run) : ∀ steps : List (Binding Step),
    evalCorrelations s r steps = evalCorrelations { s with run } r steps
  | [] => by rw [evalCorrelations, evalCorrelations]
  | ⟨name, step⟩ :: rest => by
    rw [evalCorrelations, evalCorrelations, eval_agree agree step, evalCorrelations_agree agree rest]

end

end Step

namespace Enumerator

variable {e : Enumerator} {run run' : Run σ} (construct : Factory) (agree : RunsAlike e.values.nested run run')

include agree in
theorem project_agree (row : Row) : e.project construct run row = e.project construct run' row := by
  unfold project Projector.project
  split
  · exact Step.eval_agree (s := { arguments := e.arguments, values := e.values, construct, run }) agree _
  · rfl

include agree in
theorem next_agree (s : Session σ) : next construct run e s = next construct run' e s := by
  cases held : e.reader with
  | none => rw [next_closed construct run held, next_closed construct run' held]
  | some r =>
    rw [next_run construct run e held, next_run construct run' e held]
    match r.next with
    | .error _ | .ok (none, _) => rfl
    | .ok (some row, r') =>
      dsimp only
      rw [project_agree (e := { e with reader := some r' }) construct agree row]

theorem next_values (run : Run σ) (s : Session σ) : (next construct run e s).1.2.values = e.values := by
  cases held : e.reader with
  | none => rw [next_closed construct run held]
  | some r =>
    rw [next_run construct run e held]
    match r.next with
    | .error _ | .ok (none, _) => rfl
    | .ok (some row, r') =>
      dsimp only
      match project { e with reader := some r' } construct run row (Session.read r s).2 with
      | (.ok _, _) | (.error _, _) => rfl

end Enumerator

namespace Cardinality

variable {S E A : Type} {pull pull' : Pull (StateM S) E A} {holds : E → Prop}
  (keeps : ∀ e s, holds e → holds (pull e s).1.2) (same : ∀ e s, holds e → pull e s = pull' e s)
include keeps same

theorem takeAll_agree : ∀ (fuel : Nat) (e : E) (s : S), holds e → takeAll pull fuel e s = takeAll pull' fuel e s
  | 0, _, _, _ => rfl
  | fuel + 1, e, s, start => by
    have next := keeps e s start
    rw [takeAll, takeAll]
    dsimp only [bind, StateT.bind]
    rw [same e s start] at next ⊢
    generalize pull' e s = pulled at next ⊢
    obtain ⟨⟨result, e'⟩, s'⟩ := pulled
    rcases result with _ | _ | _
    · rfl
    · rfl
    · dsimp only [StateT.bind]
      rw [takeAll_agree fuel e' s' next]

theorem takeOnly_agree (c : Cardinality) (e : E) (s : S) (start : holds e) :
    c.takeOnly pull e s = c.takeOnly pull' e s := by
  have next := keeps e s start
  rw [takeOnly, takeOnly]
  dsimp only [bind, StateT.bind]
  rw [same e s start] at next ⊢
  generalize pull' e s = pulled at next ⊢
  obtain ⟨⟨result, e'⟩, s'⟩ := pulled
  rcases result with _ | _ | _
  · rfl
  · rfl
  · dsimp only [StateT.bind]
    rw [same e' s' next]

/-- Sources that agree on all there is to come give a caller the same. -/
theorem take_agree (c : Cardinality) (fuel : Nat) (e : E) (s : S) (start : holds e) :
    c.take pull fuel e s = c.take pull' fuel e s := by
  have first (c : Cardinality) : c.takeFirst pull e s = c.takeFirst pull' e s := by
    rw [takeFirst, takeFirst]
    dsimp only [bind, StateT.bind]
    rw [same e s start]
  cases c with
  | many => exact takeAll_agree keeps same fuel e s start
  | first => exact first .first
  | firstOrDefault => exact first .firstOrDefault
  | single => exact takeOnly_agree keeps same .single e s start
  | singleOrDefault => exact takeOnly_agree keeps same .singleOrDefault e s start

end Cardinality

theorem Enumerator.take_agree {e : Enumerator} {run run' : Run σ} (construct : Factory)
    (agree : RunsAlike e.values.nested run run') (c : Cardinality) (s : Session σ) :
    e.take construct run c s = e.take construct run' c s := by
  have same (e' : Enumerator) (s' : Session σ) (values : e'.values = e.values) :
      next construct run e' s' = next construct run' e' s' := next_agree construct (values ▸ agree) s'
  have taken := Cardinality.take_agree (fun e' s' (values : e'.values = e.values) =>
    (next_values construct run s').trans values) same c e.remaining e s rfl
  unfold take
  dsimp only [bind, StateT.bind]
  rw [taken]

namespace Provider

variable (p : Provider σ) {run run' : Run σ} {q : BoundQuery}

theorem execute_values {s s' : Session σ} {e : Enumerator} (executed : p.execute q s = (.ok e, s')) :
    e.values = q.values := by
  unfold execute at executed
  rw [bind_run] at executed
  generalize p.prepare q s = prepared at executed
  match prepared with
  | (.error _, _) => cases executed
  | (.ok _, s') =>
    dsimp only at executed
    rw [bind_run] at executed
    generalize Session.onChannel (Channel.openReader p.database _) s' = opened at executed
    match opened with
    | (.error _, _) => cases executed
    | (.ok _, _) => cases executed; rfl

theorem collect_agree (agree : RunsAlike q.values.nested run run') (c : Cardinality) :
    p.collect run c q = p.collect run' c q := by
  funext s
  unfold collect
  rw [bind_run, bind_run]
  cases executed : p.execute q s with
  | mk result s' =>
    cases result with
    | error _ => rfl
    | ok e => exact Enumerator.take_agree p.construct (p.execute_values executed ▸ agree) c s'

/-- A query is listed in the same way at every depth that is enough for it. -/
theorem listAt_enough {depth : Nat} (enough : q.depth ≤ depth) : p.listAt depth q = p.list q := by
  -- What is nested in the query is listed at `depth - 1` on the one side and at `q.depth - 1` on the other. Both are
  -- enough for it and less than `depth`, so both come to `p.list`.
  induction depth using Nat.strongRecOn generalizing q with
  | ind depth ih =>
    cases depth with
    | zero =>
      refine p.collect_agree (fun n nested => ?_) .many
      have deeper := Query.depth_nested nested
      omega
    | succ depth =>
      refine p.collect_agree (fun n nested given => ?_) .many
      have deeper := Query.depth_nested nested
      have before : (n.withParameters given).depth = n.depth := rfl
      rw [ih depth (Nat.lt_succ_self _) (by omega)]
      exact (ih (q.depth - 1) (by omega) (by omega)).symm

/-- The queries nested in a query are listed as any other query is. -/
theorem executeWith_list (c : Cardinality) (q : BoundQuery) : p.executeWith c q = p.collect p.list c q :=
  p.collect_agree (fun n nested given => by
    have deeper := Query.depth_nested nested
    have same : (n.withParameters given).depth = n.depth := rfl
    exact p.listAt_enough (by omega)) c

end Provider

/-! ### Results -/

theorem Reader.next_rows {r r' : Reader} {row : Row} (read : r.next = .ok (some row, r')) :
    r.rest.rows.length = r'.rest.rows.length + 1 := by
  unfold Reader.next at read
  split at read
  · rename_i values rows found
    cases read
    simp [found]
  · cases read
  · cases read

namespace Enumerator

variable {e : Enumerator} (construct : Factory) (run : Run σ)

theorem next_remaining {s : Session σ} {m : Materialized} (result : (next construct run e s).1.1 = some (.ok m)) :
    e.remaining = (next construct run e s).1.2.remaining + 1 := by
  cases held : e.reader with
  | none =>
    rw [next_closed construct run held] at result
    cases result
  | some r =>
    have here : e.remaining = r.rest.rows.length + 1 := by rw [remaining, held]
    rw [next_run construct run e held] at result ⊢
    match read : r.next with
    | .error _ | .ok (none, _) =>
      rw [read] at result
      cases result
    | .ok (some row, r') =>
      rw [read] at result
      dsimp only at result ⊢
      -- Projecting a row reads nothing more from this reader, whatever it answers.
      generalize project { e with reader := some r' } construct run row (Session.read r s).2 = answer at result ⊢
      match answer with
      | (.error _, _) => cases result
      | (.ok _, _) =>
        rw [here, Reader.next_rows read]
        rfl

/-- A query that is read to its end has no more results, however many are allowed. -/
theorem takeAll_enough : ∀ (fuel : Nat) (e : Enumerator) (s : Session σ), e.remaining ≤ fuel →
    Cardinality.takeAll (next construct run) fuel e s = Cardinality.takeAll (next construct run) e.remaining e s
  | 0, e, s, enough => by rw [Nat.le_zero.mp enough]
  | fuel + 1, e, s, enough => by
    cases left : e.remaining with
    | zero =>
      have closed : e.reader = none := by
        cases held : e.reader with
        | none => rfl
        | some r => simp [remaining, held] at left
      rw [Cardinality.takeAll, Cardinality.takeAll]
      dsimp only [bind, StateT.bind]
      rw [next_closed construct run closed]
    | succ rows =>
      have fewer (m : Materialized) := next_remaining (e := e) (s := s) (m := m) construct run
      rw [Cardinality.takeAll, Cardinality.takeAll]
      dsimp only [bind, StateT.bind]
      generalize next construct run e s = pulled at fewer ⊢
      obtain ⟨⟨result, e'⟩, s'⟩ := pulled
      rcases result with _ | _ | m
      · rfl
      · rfl
      -- One row less is left, and one result fewer allowed.
      · have within : e'.remaining = rows := Nat.succ.inj ((fewer m rfl).symm.trans left)
        have enough : e'.remaining ≤ fuel := by omega
        dsimp only [StateT.bind]
        rw [takeAll_enough fuel e' s' enough, within]

end Enumerator

end Agreement

end QueryTree
