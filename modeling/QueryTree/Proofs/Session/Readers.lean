import Mathlib.Data.List.Induction
import Mathlib.Tactic.SplitIfs
import QueryTree.Session.Provider

/-! Every reader is closed once, and the inner before the outer goes on.

A running query reads one reader. The queries nested in its projection run to their ends while a row of it is
projected, so the readers that are open at one time stand in one another, and only the innermost is read or closed.
That is a protocol of stacks, which a record either follows or not: each computation here follows it and leaves the
stack as it found it, whatever the stack was. What the protocol comes to is read off a record that starts and ends
with no reader open.
-/

set_option autoImplicit false

namespace QueryTree

/-! ### Records -/

namespace Entry

def openings (k : Nat) (record : List Entry) : Nat :=
  record.countP fun
    | .opened n => n = k
    | _ => false

def closings (k : Nat) (record : List Entry) : Nat :=
  record.countP fun
    | .event (.close n _) => n = k
    | _ => false

/-- The reader is read or closed. -/
def Uses (k : Nat) : Entry → Prop
  | .read n => n = k
  | .event (.close n _) => n = k
  | _ => False

variable {k n : Nat}

@[simp] theorem openings_append {a b : List Entry} : openings k (a ++ b) = openings k a + openings k b :=
  List.countP_append

@[simp] theorem closings_append {a b : List Entry} : closings k (a ++ b) = closings k a + closings k b :=
  List.countP_append

@[simp] theorem openings_opened : openings k [.opened n] = if n = k then 1 else 0 := by
  simp [openings]

@[simp] theorem closings_opened : closings k [.opened n] = 0 := rfl

@[simp] theorem openings_event {e : Event} : openings k [.event e] = 0 := rfl

@[simp] theorem closings_close {reads : Nat} :
    closings k [.event (.close n reads)] = if n = k then 1 else 0 := by
  simp [closings]

end Entry

open Entry (openings closings)

/-- What is recorded of readers numbered from `first` up to `next` when all are closed. -/
structure Settled (first next : Nat) (record : List Entry) : Prop where
  opened : ∀ k, openings k record = if first ≤ k ∧ k < next then 1 else 0
  closed : ∀ k, closings k record = openings k record
  /-- A reader is read or closed while it is open and all that were opened since are closed. -/
  inside : ∀ before entry after k, record = before ++ entry :: after → entry.Uses k →
    closings k before = 0 ∧ ∃ earlier since, before = earlier ++ .opened k :: since ∧
      ∀ j, closings j since = openings j since

/-- The readers that are open, the innermost first, and the number of the next. -/
structure Readers where
  current : List Nat
  next : Nat

namespace Readers

/-- What an entry makes of the readers, if it may stand there. -/
def step (o : Readers) : Entry → Option Readers
  | .opened n => if n = o.next then some ⟨n :: o.current, n + 1⟩ else none
  | .read n => if o.current.head? = some n then some o else none
  | .event (.close n _) => if o.current.head? = some n then some { o with current := o.current.tail } else none
  | .event _ => some o

def follow (o : Readers) (record : List Entry) : Option Readers := record.foldlM step o

variable {o o' : Readers} {first : Nat} {record : List Entry} {entry : Entry}

theorem follow_append {more : List Entry} : o.follow (record ++ more) = (o.follow record).bind (·.follow more) :=
  List.foldlM_append

theorem follow_singleton : o.follow [entry] = o.step entry := by
  rw [follow, List.foldlM_cons]
  cases o.step entry <;> rfl

/-- What a record has come to that started with no reader open. -/
structure Reached (first : Nat) (record : List Entry) (o : Readers) : Prop where
  numbered : first ≤ o.next
  opened : ∀ k, openings k record = if first ≤ k ∧ k < o.next then 1 else 0
  closed : ∀ k, closings k record + o.current.count k = openings k record
  /-- Since an open reader was opened, all others were closed but those inside it. -/
  since : ∀ inner k outer, o.current = inner ++ k :: outer → ∃ earlier later, record = earlier ++ .opened k :: later ∧
    ∀ j, closings j later + inner.count j = openings j later

theorem Reached.start : Reached first [] ⟨[], first⟩ where
  numbered := Nat.le_refl first
  opened k := by
    rw [if_neg (by dsimp only; omega)]
    rfl
  closed _ := rfl
  since inner k outer empty := by simp at empty

theorem Reached.pass (reached : Reached first record o) (opens : ∀ k, openings k [entry] = 0)
    (closes : ∀ k, closings k [entry] = 0) : Reached first (record ++ [entry]) o where
  numbered := reached.numbered
  opened k := by simpa [opens] using reached.opened k
  closed k := by simpa [opens, closes] using reached.closed k
  since inner k outer current := by
    obtain ⟨earlier, later, rfl, balanced⟩ := reached.since inner k outer current
    exact ⟨earlier, later ++ [entry], by simp, fun j => by simpa [opens, closes] using balanced j⟩

theorem Reached.opened_next (reached : Reached first record o) :
    Reached first (record ++ [.opened o.next]) ⟨o.next :: o.current, o.next + 1⟩ where
  numbered := Nat.le_succ_of_le reached.numbered
  opened k := by
    have numbered := reached.numbered
    have before := reached.opened k
    rw [Entry.openings_append, Entry.openings_opened, before]
    dsimp only
    split_ifs <;> omega
  closed k := by
    have before := reached.closed k
    simp only [Entry.openings_append, Entry.openings_opened, Entry.closings_append, Entry.closings_opened,
      List.count_cons, beq_iff_eq]
    omega
  since inner k outer current := by
    cases inner with
    | nil =>
      -- No reader has been opened since the new one.
      obtain ⟨rfl, rfl⟩ := List.cons.inj current
      exact ⟨record, [], rfl, fun _ => rfl⟩
    | cons newest inner =>
      obtain ⟨rfl, within⟩ := List.cons.inj current
      obtain ⟨earlier, later, rfl, balanced⟩ := reached.since inner k outer within
      refine ⟨earlier, later ++ [.opened o.next], by simp, fun j => ?_⟩
      have balanced := balanced j
      simp only [Entry.openings_append, Entry.openings_opened, Entry.closings_append, Entry.closings_opened,
        List.count_cons, beq_iff_eq]
      omega

theorem Reached.closed_first {n next reads : Nat} {rest : List Nat} (reached : Reached first record ⟨n :: rest, next⟩) :
    Reached first (record ++ [.event (.close n reads)]) ⟨rest, next⟩ where
  numbered := reached.numbered
  opened k := by simpa using reached.opened k
  closed k := by
    have before := reached.closed k
    simp only [List.count_cons, beq_iff_eq] at before
    simp only [Entry.openings_append, Entry.openings_event, Entry.closings_append, Entry.closings_close]
    omega
  since inner k outer current := by
    obtain ⟨earlier, later, rfl, balanced⟩ := reached.since (n :: inner) k outer (congrArg (n :: ·) current)
    refine ⟨earlier, later ++ [.event (.close n reads)], by simp, fun j => ?_⟩
    have balanced := balanced j
    simp only [List.count_cons, beq_iff_eq] at balanced
    simp only [Entry.openings_append, Entry.openings_event, Entry.closings_append, Entry.closings_close]
    omega

theorem Reached.step (reached : Reached first record o) (stepped : o.step entry = some o') :
    Reached first (record ++ [entry]) o' := by
  cases entry with
  | opened n =>
    obtain ⟨rfl, ⟨⟩⟩ := Option.ite_none_right_eq_some.mp stepped
    exact reached.opened_next
  | read n =>
    obtain ⟨-, ⟨⟩⟩ := Option.ite_none_right_eq_some.mp stepped
    exact reached.pass (fun _ => rfl) (fun _ => rfl)
  | event e =>
    cases e with
    | close n reads =>
      obtain ⟨innermost, ⟨⟩⟩ := Option.ite_none_right_eq_some.mp stepped
      obtain ⟨current, next⟩ := o
      obtain ⟨rest, rfl⟩ := List.head?_eq_some_iff.mp innermost
      exact reached.closed_first
    | _ =>
      cases stepped
      exact reached.pass (fun _ => rfl) (fun _ => rfl)

theorem reached_of_follow : ∀ {record : List Entry} {o : Readers}, follow ⟨[], first⟩ record = some o →
    Reached first record o := by
  intro record
  induction record using List.reverseRec with
  | nil =>
    rintro o ⟨⟩
    exact .start
  | append_singleton before entry ih =>
    intro o followed
    rw [follow_append, Option.bind_eq_some_iff] at followed
    obtain ⟨middle, reaches, stepped⟩ := followed
    rw [follow_singleton] at stepped
    exact (ih reaches).step stepped

/-- A reader that is used is the innermost. -/
theorem innermost_used {k : Nat} {after : List Entry} (used : entry.Uses k)
    (followed : o.follow (entry :: after) = some o') : ∃ outer, o.current = k :: outer := by
  rw [follow, List.foldlM_cons, Option.bind_eq_bind, Option.bind_eq_some_iff] at followed
  obtain ⟨_, stepped, -⟩ := followed
  cases entry with
  | opened n => cases used
  | read n =>
    cases used
    obtain ⟨innermost, -⟩ := Option.ite_none_right_eq_some.mp stepped
    exact List.head?_eq_some_iff.mp innermost
  | event e =>
    cases e with
    | close n reads =>
      cases used
      obtain ⟨innermost, -⟩ := Option.ite_none_right_eq_some.mp stepped
      exact List.head?_eq_some_iff.mp innermost
    | _ => cases used

theorem settled_of_follow {next : Nat} (followed : follow ⟨[], first⟩ record = some ⟨[], next⟩) :
    Settled first next record := by
  have whole := reached_of_follow followed
  refine ⟨whole.opened, fun k => by simpa using whole.closed k, ?_⟩
  intro before entry after k split used
  rw [split, follow_append, Option.bind_eq_some_iff] at followed
  obtain ⟨o, reaches, rest⟩ := followed
  have reached := reached_of_follow reaches
  obtain ⟨outer, top⟩ := innermost_used used rest
  obtain ⟨earlier, later, parts, balanced⟩ := reached.since [] k outer top
  refine ⟨?_, earlier, later, parts, by simpa using balanced⟩
  have once := reached.opened k
  have still := reached.closed k
  rw [top, List.count_cons_self] at still
  split at once <;> omega

end Readers

/-! ### Computations -/

section Computations

variable {σ α β : Type}

namespace Session

variable {s s' s'' : Session σ} {before middle after : List Nat}

/-- What was recorded from one session to another starts with the readers `before` open and ends with `after`. -/
def Leads (s : Session σ) (before : List Nat) (s' : Session σ) (after : List Nat) : Prop :=
  ∃ record, s'.channel.record = s.channel.record ++ record ∧
    Readers.follow ⟨before, s.channel.opened⟩ record = some ⟨after, s'.channel.opened⟩

theorem Leads.refl : s.Leads before s before := ⟨[], by simp, rfl⟩

theorem Leads.trans (left : s.Leads before s' middle) (right : s'.Leads middle s'' after) :
    s.Leads before s'' after := by
  obtain ⟨first, recorded, followed⟩ := left
  obtain ⟨second, recorded', followed'⟩ := right
  refine ⟨first ++ second, by rw [recorded', recorded, List.append_assoc], ?_⟩
  rw [Readers.follow_append, followed, Option.bind_some, followed']

theorem Leads.entry {entry : Entry} (recorded : s'.channel.record = s.channel.record ++ [entry])
    (stepped : Readers.step ⟨before, s.channel.opened⟩ entry = some ⟨after, s'.channel.opened⟩) :
    s.Leads before s' after :=
  ⟨[entry], recorded, Readers.follow_singleton.trans stepped⟩

theorem read_leads (r : Reader) : s.Leads (r.number :: after) (Session.read r s).2 (r.number :: after) :=
  .entry rfl (if_pos rfl)

theorem close_leads (r : Reader) : s.Leads (r.number :: after) (Session.close r s).2 after :=
  .entry rfl (if_pos rfl)

end Session

/-- The readers opened from one session to another are closed in it, each once, the inner before the outer. -/
def Session.Settles (s s' : Session σ) : Prop :=
  ∃ record, s'.channel.record = s.channel.record ++ record ∧ Settled s.channel.opened s'.channel.opened record

/-- The readers that are open before it are the ones that are open after it, and are left alone. -/
def Neat (x : ExceptT QueryError (StateM (Session σ)) α) : Prop :=
  ∀ (s : Session σ) (outer : List Nat), s.Leads outer (x s).2 outer

theorem bind_run {S : Type} {x : ExceptT QueryError (StateM S) α} {f : α → ExceptT QueryError (StateM S) β} {s : S} :
    (x >>= f) s = match x s with
    | (.ok a, s') => f a s'
    | (.error e, s') => (.error e, s') := by
  change ExceptT.bindCont f (x s).1 (x s).2 = _
  rcases x s with ⟨_ | _, _⟩ <;> rfl

section Bind

variable {x : ExceptT QueryError (StateM (Session σ)) α} {f : α → ExceptT QueryError (StateM (Session σ)) β}

namespace Neat

theorem lift (x : Except QueryError α) : Neat (ExceptT.mk (pure x) : ExceptT QueryError (StateM (Session σ)) α) :=
  fun _ _ => .refl

theorem pure (a : α) : Neat (Pure.pure a : ExceptT QueryError (StateM (Session σ)) α) := fun _ _ => .refl

theorem bind (neat : Neat x) (rest : ∀ a, Neat (f a)) : Neat (x >>= f) := by
  intro s outer
  have first := neat s outer
  rw [bind_run]
  generalize x s = result at first ⊢
  match result with
  | (.ok a, s') => exact first.trans (rest a s' outer)
  | (.error _, _) => exact first

theorem settles (neat : Neat x) (s : Session σ) : s.Settles (x s).2 := by
  obtain ⟨record, recorded, followed⟩ := neat s []
  exact ⟨record, recorded, Readers.settled_of_follow followed⟩

end Neat

/-- The readers that are open before it are left alone, and are open after it, with those inside them that a result
holds. -/
def Acquires (x : ExceptT QueryError (StateM (Session σ)) α) (held : α → List Nat) : Prop :=
  ∀ (s : Session σ) (outer : List Nat), match x s with
    | (.ok a, s') => s.Leads outer s' (held a ++ outer)
    | (.error _, s') => s.Leads outer s' outer

namespace Acquires

variable {held : α → List Nat} {held' : β → List Nat}

theorem after (neat : Neat x) (opens : ∀ a, Acquires (f a) held') : Acquires (x >>= f) held' := by
  intro s outer
  have first := neat s outer
  rw [bind_run]
  generalize x s = result at first ⊢
  match result with
  | (.error _, _) => exact first
  | (.ok a, s') =>
    have second := opens a s' outer
    dsimp only
    generalize f a s' = result at second ⊢
    match result with
    | (.ok _, _) | (.error _, _) => exact first.trans second

theorem map {g : α → β} (opens : Acquires x held) (same : ∀ a, held' (g a) = held a) :
    Acquires (x >>= fun a => pure (g a)) held' := by
  intro s outer
  have first := opens s outer
  rw [bind_run]
  generalize x s = result at first ⊢
  match result with
  | (.error _, _) => exact first
  | (.ok a, s') =>
    change s.Leads outer s' (held' (g a) ++ outer)
    rw [same]
    exact first

theorem released (opens : Acquires x held)
    (rest : ∀ a (s : Session σ) outer, s.Leads (held a ++ outer) (f a s).2 outer) : Neat (x >>= f) := by
  intro s outer
  have first := opens s outer
  rw [bind_run]
  generalize x s = result at first ⊢
  match result with
  | (.ok a, s') => exact first.trans (rest a s' outer)
  | (.error _, _) => exact first

end Acquires

end Bind

namespace Step

variable {surroundings : Surroundings (StateM (Session σ))} {r : Row}

mutual

theorem eval_neat (neat : ∀ q, Neat (surroundings.run q)) : ∀ step : Step, Neat (step.eval surroundings r)
  | .row => by
    rw [eval]
    exact .pure _
  | .place ordinal type => by
    rw [eval]
    exact .lift _
  | .named name type => by
    rw [eval]
    exact .lift _
  | .constant number => by
    rw [eval]
    exact .lift _
  | .argument index => by
    rw [eval]
    exact .lift _
  | .entity name fields => by
    rw [eval]
    exact .bind (evalFields_neat neat fields) fun _ => .pure _
  | .tuple items => by
    rw [eval]
    exact .bind (evalList_neat neat items) fun _ => .pure _
  | .nested number correlations => by
    rw [eval]
    exact .bind (.lift _) fun query => .bind (evalCorrelations_neat neat correlations) fun given =>
      .bind (neat _) fun _ => .pure _

theorem evalList_neat (neat : ∀ q, Neat (surroundings.run q)) : ∀ steps : List Step, Neat (evalList surroundings r steps)
  | [] => by
    rw [evalList]
    exact .pure _
  | step :: rest => by
    rw [evalList]
    exact .bind (eval_neat neat step) fun _ => .bind (evalList_neat neat rest) fun _ => .pure _

theorem evalFields_neat (neat : ∀ q, Neat (surroundings.run q)) :
    ∀ steps : List (Binding Step), Neat (evalFields surroundings r steps)
  | [] => by
    rw [evalFields]
    exact .pure _
  | ⟨name, step⟩ :: rest => by
    rw [evalFields]
    exact .bind (eval_neat neat step) fun _ => .bind (evalFields_neat neat rest) fun _ => .pure _

theorem evalCorrelations_neat (neat : ∀ q, Neat (surroundings.run q)) :
    ∀ steps : List (Binding Step), Neat (evalCorrelations surroundings r steps)
  | [] => by
    rw [evalCorrelations]
    exact .pure _
  | ⟨name, step⟩ :: rest => by
    rw [evalCorrelations]
    exact .bind (eval_neat neat step) fun _ => .bind (.lift _) fun _ => .bind (evalCorrelations_neat neat rest) fun _ => .pure _

end

end Step

theorem Reader.next_number {r r' : Reader} {row : Option Row} (read : r.next = .ok (row, r')) : r'.number = r.number := by
  unfold Reader.next at read
  split at read <;> cases read <;> rfl

namespace Enumerator

def held (e : Enumerator) : List Nat := (e.reader.map Reader.number).toList

variable {e : Enumerator} {s : Session σ} {outer : List Nat}

theorem close_leads : s.Leads (e.held ++ outer) (e.close s).2 outer := by
  obtain ⟨reader, plan, values, arguments⟩ := e
  cases reader with
  | none => exact .refl
  | some r => exact Session.close_leads r

theorem close_closed : (e.close s).1.reader = none := by
  obtain ⟨reader, plan, values, arguments⟩ := e
  cases reader <;> rfl

variable (construct : Factory) (run : Run σ)

/-- The next result of a query that is open: reading ends, fails or gives a row, and with a row the result may fail. -/
theorem next_run (e : Enumerator) {r : Reader} (held : e.reader = some r) (s : Session σ) :
    next construct run e s =
      let read := (Session.read r s).2
      match r.next with
      | .error text => ((some (.error (.execution text)), { e with reader := none }), (Session.close r read).2)
      | .ok (none, r') => ((none, { e with reader := none }), (Session.close r' read).2)
      | .ok (some row, r') =>
        match project { e with reader := some r' } construct run row read with
        | (.ok m, s') => ((some (.ok m), { e with reader := some r' }), s')
        | (.error error, s') => ((some (.error error), { e with reader := none }), (Session.close r' s').2) := by
  obtain ⟨reader, plan, values, arguments⟩ := e
  obtain rfl : reader = some r := held
  rw [next]
  dsimp only [bind, StateT.bind, Session.read, Channel.read]
  match r.next with
  | .error _ | .ok (none, _) => rfl
  | .ok (some row, r') =>
    dsimp only [StateT.bind]
    rcases project ⟨some r', plan, values, arguments⟩ construct run row _ with ⟨_ | _, _⟩ <;> rfl

theorem next_closed (closed : e.reader = none) : next construct run e s = ((none, e), s) := by
  obtain ⟨reader, plan, values, arguments⟩ := e
  obtain rfl : reader = none := closed
  rfl

/-- A query is open after a result only. -/
theorem next_ends : (∃ m, (next construct run e s).1.1 = some (.ok m)) ∨ (next construct run e s).1.2.reader = none := by
  cases held : e.reader with
  | none =>
    rw [next_closed construct run held]
    exact .inr held
  | some r =>
    rw [next_run construct run e held]
    match r.next with
    | .error _ | .ok (none, _) => exact .inr rfl
    | .ok (some row, r') =>
      dsimp only
      match project { e with reader := some r' } construct run row (Session.read r s).2 with
      | (.ok m, _) => exact .inl ⟨m, rfl⟩
      | (.error _, _) => exact .inr rfl

variable {run} (neat : ∀ q, Neat (run q))
include neat

theorem project_neat (e : Enumerator) (row : Row) : Neat (e.project construct run row) := by
  unfold project Projector.project
  split
  · exact Step.eval_neat neat _
  · exact .lift _

/-- Of the readers that were open, the next result leaves all but maybe the one of the query itself. -/
theorem next_leads :
    s.Leads (e.held ++ outer) (next construct run e s).2 ((next construct run e s).1.2.held ++ outer) := by
  cases held : e.reader with
  | none =>
    rw [next_closed construct run held]
    exact .refl
  | some r =>
    have only : e.held = [r.number] := by rw [Enumerator.held, held]; rfl
    have read : s.Leads (r.number :: outer) (Session.read r s).2 (r.number :: outer) := Session.read_leads r
    rw [next_run construct run e held, only]
    cases result : r.next with
    | error text => exact read.trans (Session.close_leads r)
    | ok pair =>
      obtain ⟨row, r'⟩ := pair
      rw [← Reader.next_number result] at read ⊢
      cases row with
      | none => exact read.trans (Session.close_leads r')
      | some row =>
        -- Nested queries open their readers above this one and have closed them again before it is used.
        have projected := project_neat construct neat { e with reader := some r' } row
          (Session.read r s).2 (r'.number :: outer)
        dsimp only
        generalize project { e with reader := some r' } construct run row (Session.read r s).2 = answer at projected ⊢
        match answer with
        | (.ok _, _) => exact read.trans projected
        | (.error _, _) => exact (read.trans projected).trans (Session.close_leads r')

end Enumerator

namespace Cardinality

variable {S E A : Type} {pull : Pull (StateM S) E A} {holds : E → S → Prop}
  (keeps : ∀ e s, holds e s → holds (pull e s).1.2 (pull e s).2)
include keeps

theorem takeAll_keeps : ∀ (fuel : Nat) (e : E) (s : S), holds e s →
    holds (takeAll pull fuel e s).1.2 (takeAll pull fuel e s).2
  | 0, _, _, start => start
  | fuel + 1, e, s, start => by
    have next := keeps e s start
    rw [takeAll]
    dsimp only [bind, StateT.bind]
    generalize pull e s = pulled at next ⊢
    obtain ⟨⟨result, e'⟩, s'⟩ := pulled
    match result with
    | none | some (.error _) => exact next
    | some (.ok _) => exact takeAll_keeps fuel e' s' next

theorem takeFirst_keeps (c : Cardinality) (e : E) (s : S) (start : holds e s) :
    holds (c.takeFirst pull e s).1.2 (c.takeFirst pull e s).2 := by
  have next := keeps e s start
  rw [takeFirst]
  dsimp only [bind, StateT.bind]
  generalize pull e s = pulled at next ⊢
  obtain ⟨⟨result, e'⟩, s'⟩ := pulled
  cases result <;> exact next

theorem takeOnly_keeps (c : Cardinality) (e : E) (s : S) (start : holds e s) :
    holds (c.takeOnly pull e s).1.2 (c.takeOnly pull e s).2 := by
  have first := keeps e s start
  rw [takeOnly]
  dsimp only [bind, StateT.bind]
  generalize pull e s = pulled at first ⊢
  obtain ⟨⟨result, e'⟩, s'⟩ := pulled
  match result with
  | none | some (.error _) => exact first
  | some (.ok _) =>
    have second := keeps e' s' first
    dsimp only [StateT.bind]
    generalize pull e' s' = pulled at second ⊢
    obtain ⟨⟨result, e''⟩, s''⟩ := pulled
    match result with
    | none | some (.error _) | some (.ok _) => exact second

theorem take_keeps (c : Cardinality) (fuel : Nat) (e : E) (s : S) (start : holds e s) :
    holds (c.take pull fuel e s).1.2 (c.take pull fuel e s).2 := by
  cases c with
  | many => exact takeAll_keeps keeps fuel e s start
  | first => exact takeFirst_keeps keeps .first e s start
  | firstOrDefault => exact takeFirst_keeps keeps .firstOrDefault e s start
  | single => exact takeOnly_keeps keeps .single e s start
  | singleOrDefault => exact takeOnly_keeps keeps .singleOrDefault e s start

end Cardinality

namespace Enumerator

variable {e : Enumerator} (construct : Factory) {run : Run σ} (neat : ∀ q, Neat (run q))

include neat in
theorem take_leads (c : Cardinality) {s : Session σ} {outer : List Nat} :
    s.Leads (e.held ++ outer) (e.take construct run c s).2 outer := by
  have keeps (e' : Enumerator) (s' : Session σ) (before : s.Leads (e.held ++ outer) s' (e'.held ++ outer)) :
      s.Leads (e.held ++ outer) (next construct run e' s').2 ((next construct run e' s').1.2.held ++ outer) :=
    before.trans (next_leads construct neat)
  have kept := Cardinality.take_keeps keeps c e.remaining e s .refl
  exact kept.trans close_leads

/-- What may be asked of a running query before it is dropped. -/
inductive Request where
  | next
  | close

def serve (construct : Factory) (run : Run σ) : List Request → Enumerator →
    StateM (Session σ) (List (Option (Except QueryError Materialized)) × Enumerator)
  | [], e => return ([], e)
  | .next :: rest, e => do
    let (answer, e) ← next construct run e
    let (answers, e) ← serve construct run rest e
    return (answer :: answers, e)
  | .close :: rest, e => do
    let (answers, e) ← serve construct run rest (← e.close)
    return (none :: answers, e)

include neat in
theorem serve_leads : ∀ (requests : List Request) (e : Enumerator) (s : Session σ) (outer : List Nat),
    s.Leads (e.held ++ outer) (serve construct run requests e s).2
      ((serve construct run requests e s).1.2.held ++ outer)
  | [], _, _, _ => .refl
  | .next :: rest, e, s, outer => (next_leads construct neat).trans (serve_leads rest _ _ outer)
  | .close :: rest, e, s, outer => by
    have closed : (e.close s).1.held = [] := by rw [held, close_closed]; rfl
    have closes : s.Leads (e.held ++ outer) (e.close s).2 ((e.close s).1.held ++ outer) := by
      rw [closed]
      exact close_leads
    exact closes.trans (serve_leads rest _ _ outer)

theorem serve_closed : ∀ (requests : List Request) (e : Enumerator) (s : Session σ), e.reader = none →
    ∀ answer ∈ (serve construct run requests e s).1.1, answer = none
  | [], _, _, _, _, listed => nomatch listed
  | .next :: rest, ⟨none, plan, values, arguments⟩, s, rfl, answer, listed => by
    cases listed with
    | head => rfl
    | tail _ listed => exact serve_closed rest _ s rfl answer listed
  | .close :: rest, e, s, _, answer, listed => by
    cases listed with
    | head => rfl
    | tail _ listed => exact serve_closed rest _ _ close_closed answer listed

/-- After the end, an error or a close there are no results. -/
theorem serve_ends : ∀ (requests : List Request) (e : Enumerator) (s : Session σ),
    (serve construct run requests e s).1.1.Pairwise fun answer later => (∀ m, answer ≠ some (.ok m)) → later = none
  | [], _, _ => .nil
  | .next :: rest, e, s => by
    refine .cons (fun later listed ended => ?_) (serve_ends rest _ _)
    obtain ⟨m, result⟩ | closed := next_ends (e := e) (s := s) construct run
    · exact absurd result (ended m)
    · exact serve_closed construct rest _ _ closed later listed
  | .close :: rest, e, s => .cons (fun later listed _ => serve_closed construct rest _ _ close_closed later listed)
      (serve_ends rest _ _)

end Enumerator

namespace Provider

variable (p : Provider σ) {run : Run σ} {s : Session σ} {outer : List Nat}

theorem prepare_neat (q : BoundQuery) : Neat (p.prepare q) :=
  fun _ _ => ⟨[], (List.append_nil _).symm, rfl⟩

theorem openReader_acquires (command : Command) :
    Acquires (Session.onChannel (Channel.openReader p.database command)) fun r => [r.number] := by
  intro s outer
  unfold Session.onChannel Channel.openReader
  rw [bind_run, Channel.ask]
  rcases p.database.query command s.channel.state with ⟨text | rest, state⟩
  · exact .entry rfl rfl
  · have asked : s.Leads outer ⟨s.plans, ⟨state, s.channel.opened, s.channel.record ++ [.event (.query command)]⟩⟩ outer :=
      .entry rfl rfl
    exact asked.trans (.entry rfl (if_pos rfl))

theorem execute_acquires (q : BoundQuery) : Acquires (p.execute q) Enumerator.held :=
  .after (p.prepare_neat q) fun prepared => .map (p.openReader_acquires prepared.command) fun _ => rfl

theorem collect_neat (neat : ∀ q, Neat (run q)) (c : Cardinality) (q : BoundQuery) : Neat (p.collect run c q) :=
  (p.execute_acquires q).released fun _ _ _ => Enumerator.take_leads p.construct neat c

theorem listAt_neat : ∀ (depth : Nat) (q : BoundQuery), Neat (p.listAt depth q)
  | 0 => p.collect_neat (fun _ => .lift _) .many
  | depth + 1 => p.collect_neat (listAt_neat depth) .many

theorem executeWith_neat (c : Cardinality) (q : BoundQuery) : Neat (p.executeWith c q) :=
  p.collect_neat (p.listAt_neat _) c q

/-- A query that is asked for results one at a time, and dropped then. -/
def use (q : BoundQuery) (requests : List Enumerator.Request) :
    ExceptT QueryError (StateM (Session σ)) (List (Option (Except QueryError Materialized))) := do
  let e ← p.execute q
  ExceptT.mk do
    let (answers, e) ← e.serve p.construct (p.runNested q) requests
    let _ ← e.close
    return .ok answers

theorem use_neat (q : BoundQuery) (requests : List Enumerator.Request) : Neat (p.use q requests) :=
  (p.execute_acquires q).released fun e s outer =>
    .trans (Enumerator.serve_leads p.construct (p.listAt_neat _) requests e s outer) Enumerator.close_leads

/-- Whatever a query comes to, each reader that was opened for it is closed once, and is read only before that and
when those opened since are closed. So it is when its results are asked for one at a time, of which there are no more
after the end, an error or a close. -/
theorem readers_settle (q : BoundQuery) (s : Session σ) :
    (∀ c, s.Settles (p.executeWith c q s).2) ∧
    (∀ requests, s.Settles (p.use q requests s).2) ∧
    ∀ (requests : List Enumerator.Request) (e : Enumerator),
      (e.serve p.construct (p.runNested q) requests s).1.1.Pairwise fun answer later =>
        (∀ m, answer ≠ some (.ok m)) → later = none :=
  ⟨fun c => (p.executeWith_neat c q).settles s, fun requests => (p.use_neat q requests).settles s,
    fun requests e => e.serve_ends p.construct requests s⟩

end Provider

end Computations

end QueryTree
