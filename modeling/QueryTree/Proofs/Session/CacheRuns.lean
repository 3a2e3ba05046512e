import QueryTree.Cache

/-! What a cache has done, by what it was asked.

The journal of a run says of every request whether its key was there, and what came of compiling a key that was not. The
counts of the cache are counts of the journal, a kept value is what its key was last compiled to, and it is given to
everyone who asks for the key until the cache is emptied.
-/

set_option autoImplicit false

namespace QueryTree.Cache

variable {κ ν ε : Type}

/-- A look at an entry, a call that compiles a missing one, or an order to forget them all. -/
inductive Request (κ ν ε : Type) where
  | look (key : κ)
  | call (key : κ) (compile : κ → Except ε ν)
  | clear

def Request.isCall : Request κ ν ε → Bool
  | .call .. => true
  | _ => false

/-- What a request met with. -/
inductive Event (κ ν : Type) where
  | looked (key : κ) (found : Option ν)
  | hit (key : κ) (value : ν)
  /-- The key was compiled; `full` tells whether there was no room for it. -/
  | made (key : κ) (value : ν) (full : Bool)
  | failed (key : κ)
  | cleared

namespace Event

def isHit : Event κ ν → Bool
  | .hit .. => true
  | _ => false

def isMade : Event κ ν → Bool
  | .made .. => true
  | _ => false

def isFailed : Event κ ν → Bool
  | .failed _ => true
  | _ => false

/-- Made when there was no room. -/
def isEviction : Event κ ν → Bool
  | .made _ _ full => full
  | _ => false

/-- Entries that were there are gone. -/
def isEmptying : Event κ ν → Bool
  | .made _ _ full => full
  | .cleared => true
  | _ => false

def key? : Event κ ν → Option κ
  | .looked key _ | .hit key _ | .made key _ _ | .failed key => some key
  | .cleared => none

def made? [BEq κ] (key : κ) : Event κ ν → Option ν
  | .made k value _ => if k == key then some value else none
  | _ => none

end Event

/-- What the key was last compiled to. -/
def latest? [BEq κ] (journal : List (Event κ ν)) (key : κ) : Option ν := journal.reverse.findSome? (Event.made? key)

section Requests

variable [BEq κ]

def Request.serve (c : Cache κ ν) : Request κ ν ε → Cache κ ν
  | .look _ => c
  | .call key compile => (getOrCompile key compile c).2
  | .clear => c.clear

def Request.event (c : Cache κ ν) : Request κ ν ε → Event κ ν
  | .look key => .looked key (c.find? key)
  | .call key compile =>
    match c.find? key, compile key with
    | some value, _ => .hit key value
    | none, .ok value => .made key value (max c.capacity 1 ≤ c.size)
    | none, .error _ => .failed key
  | .clear => .cleared

def run (c : Cache κ ν) (requests : List (Request κ ν ε)) : Cache κ ν := requests.foldl Request.serve c

def journal (c : Cache κ ν) : List (Request κ ν ε) → List (Event κ ν)
  | [] => []
  | r :: rest => r.event c :: journal (r.serve c) rest

theorem capacity_serve (c : Cache κ ν) (r : Request κ ν ε) : (r.serve c).capacity = c.capacity := by
  cases r with
  | call key compile =>
    dsimp only [Request.serve, getOrCompile]
    split
    · rfl
    · split <;> rfl
  | _ => rfl

theorem run_cons (c : Cache κ ν) (r : Request κ ν ε) (rest : List (Request κ ν ε)) :
    c.run (r :: rest) = (r.serve c).run rest := rfl

end Requests

/-! ### One call -/

section Insertion

variable {c : Cache κ ν} {key : κ} {value : ν}

theorem isFull_eq (room : 1 ≤ c.capacity) : c.isFull = decide (max c.capacity 1 ≤ c.size) := by
  rw [isFull, Nat.max_eq_left room]

theorem size_insert (room : 1 ≤ c.capacity) (key : κ) (value : ν) : (c.insert key value).size ≤ c.capacity := by
  cases full : c.isFull with
  | true => simpa [size, insert, full] using room
  | false =>
    rw [isFull, decide_eq_false_iff_not, Nat.not_le] at full
    rw [size, insert, List.length_cons]
    split
    · exact room
    · exact full

theorem mem_insert {entry : κ × ν} (given : entry ∈ (c.insert key value).entries) :
    entry = (key, value) ∨ entry ∈ c.entries := by
  rcases List.mem_cons.mp given with rfl | old
  · exact .inl rfl
  · split at old
    · exact absurd old List.not_mem_nil
    · exact .inr old

end Insertion

section Calls

variable [BEq κ] {c : Cache κ ν} {key : κ} {value : ν}

theorem getOrCompile_present (found : c.find? key = some value) (compile : κ → Except ε ν) :
    getOrCompile key compile c = (.ok value, { c with hits := c.hits + 1 }) := by
  simp only [getOrCompile, found]

theorem getOrCompile_made (absent : c.find? key = none) {compile : κ → Except ε ν} (made : compile key = .ok value) :
    getOrCompile key compile c = (.ok value, c.insert key value) := by
  simp only [getOrCompile, absent, made]

theorem getOrCompile_failed (absent : c.find? key = none) {compile : κ → Except ε ν} {e : ε}
    (failed : compile key = .error e) :
    getOrCompile key compile c = (.error e, { c with misses := c.misses + 1 }) := by
  simp only [getOrCompile, absent, failed]

theorem find_insert [EquivBEq κ] (c : Cache κ ν) (key other : κ) (value : ν) : (c.insert key value).find? other =
    if key == other then some value else if c.isFull then none else c.find? other := by
  unfold find? insert
  rw [List.find?_cons]
  cases key == other with
  | true => rfl
  | false => cases full : c.isFull <;> simp

theorem find_congr [EquivBEq κ] (c : Cache κ ν) {key other : κ} (same : (key == other) = true) :
    c.find? key = c.find? other := by
  unfold find?
  congr 2
  funext entry
  exact BEq.congr_right same

end Calls

/-! ### What one request does -/

/-- The counts are those of the journal, and what is there has room, one entry a key, and was made last. -/
structure Accounts [BEq κ] (journal : List (Event κ ν)) (c : Cache κ ν) : Prop where
  room : 1 ≤ c.capacity
  size : c.size ≤ c.capacity
  distinct : c.entries.Pairwise fun a b => (a.1 == b.1) = false
  latest : ∀ entry ∈ c.entries, latest? journal entry.1 = some entry.2
  hits : c.hits = journal.countP Event.isHit
  misses : c.misses = journal.countP Event.isMade + journal.countP Event.isFailed
  compiles : c.compiles = journal.countP Event.isMade
  evictions : c.evictions = journal.countP Event.isEviction

section Steps

variable [BEq κ] {past : List (Event κ ν)} {c : Cache κ ν} {key : κ} {value : ν}

theorem latest_append (past : List (Event κ ν)) (e : Event κ ν) (key : κ) :
    latest? (past ++ [e]) key = (e.made? key).or (latest? past key) := by
  unfold latest?
  rw [List.reverse_append, List.reverse_singleton, List.singleton_append, List.findSome?_cons]
  cases e.made? key <;> rfl

theorem latest_append_other (past : List (Event κ ν)) {e : Event κ ν} {key : κ} (other : e.made? key = none) :
    latest? (past ++ [e]) key = latest? past key := by rw [latest_append, other, Option.none_or]

theorem ne_of_absent (absent : c.find? key = none) {entry : κ × ν} (given : entry ∈ c.entries) :
    (entry.1 == key) = false := by
  simp only [find?, Option.map_eq_none_iff, List.find?_eq_none] at absent
  simpa using absent entry given

theorem distinct_insert [EquivBEq κ] (absent : c.find? key = none) (value : ν)
    (distinct : c.entries.Pairwise fun a b => (a.1 == b.1) = false) :
    (c.insert key value).entries.Pairwise fun a b => (a.1 == b.1) = false := by
  refine List.pairwise_cons.mpr ⟨fun entry given => ?_, ?_⟩
  · split at given
    · exact absurd given List.not_mem_nil
    · exact BEq.symm_false (ne_of_absent absent given)
  · split
    · exact List.Pairwise.nil
    · exact distinct

/-- The counts and the entries go with the journal, request by request. -/
theorem Accounts.serve [EquivBEq κ] (accounts : Accounts past c) (r : Request κ ν ε) :
    Accounts (past ++ [r.event c]) (r.serve c) := by
  obtain ⟨room, size, distinct, latest, hits, misses, compiles, evictions⟩ := accounts
  cases r with
  | look key =>
    refine ⟨room, size, distinct, fun entry kept => ?_, ?_, ?_, ?_, ?_⟩
    · rw [latest_append_other past rfl]
      exact latest entry kept
    all_goals simpa [Request.event, Request.serve, Event.isHit, Event.isMade, Event.isFailed, Event.isEviction]
  | clear =>
    refine ⟨room, Nat.zero_le _, List.Pairwise.nil, fun entry kept => absurd kept List.not_mem_nil, ?_, ?_, ?_, ?_⟩
    all_goals simpa [Request.event, Request.serve, clear, Event.isHit, Event.isMade, Event.isFailed, Event.isEviction]
  | call key compile =>
    dsimp only [Request.event, Request.serve]
    cases found : c.find? key with
    | some value =>
      rw [getOrCompile_present found]
      refine ⟨room, size, distinct, fun entry kept => ?_, ?_, ?_, ?_, ?_⟩
      · rw [latest_append_other past rfl]
        exact latest entry kept
      all_goals simp [Event.isHit, Event.isMade, Event.isFailed, Event.isEviction, *]
    | none =>
      cases outcome : compile key with
      | error e =>
        rw [getOrCompile_failed found outcome]
        refine ⟨room, size, distinct, fun entry kept => ?_, ?_, ?_, ?_, ?_⟩
        · rw [latest_append_other past rfl]
          exact latest entry kept
        all_goals simp [Event.isHit, Event.isMade, Event.isFailed, Event.isEviction, *]; try omega
      | ok value =>
        -- With room for one at least, the cache looks for room as the journal does.
        show Accounts (past ++ [.made key value (decide (max c.capacity 1 ≤ c.size))]) _
        rw [getOrCompile_made found outcome, ← isFull_eq room]
        refine ⟨room, size_insert room key value, distinct_insert found value distinct, fun entry kept => ?_,
          ?_, ?_, ?_, ?_⟩
        · rw [latest_append]
          rcases mem_insert kept with rfl | old
          · simp [Event.made?]
          -- The key was absent, so what is still there was made for another.
          · have other : (key == entry.1) = false := BEq.symm_false (ne_of_absent found old)
            simpa [Event.made?, other] using latest entry old
        all_goals simp [insert, Event.isHit, Event.isMade, Event.isFailed, Event.isEviction, *]
        · omega
        · cases c.isFull <;> rfl

theorem find_serve [EquivBEq κ] (room : 1 ≤ c.capacity) (r : Request κ ν ε) (found : c.find? key = some value)
    (kept : (r.event c).isEmptying = false) : (r.serve c).find? key = some value := by
  cases r with
  | look other => exact found
  | clear => exact absurd kept (by simp [Request.event, Event.isEmptying])
  | call other compile =>
    dsimp only [Request.event, Request.serve] at kept ⊢
    cases there : c.find? other with
    | some v => rw [getOrCompile_present there]; exact found
    | none =>
      cases outcome : compile other with
      | error e => rw [getOrCompile_failed there outcome]; exact found
      | ok v =>
        rw [getOrCompile_made there outcome, find_insert]
        have full : c.isFull = false := by
          rw [isFull_eq room]
          simpa [there, outcome, Event.isEmptying] using kept
        have different : (other == key) = false := by
          refine Bool.eq_false_iff.mpr fun same => ?_
          rw [find_congr c same, found] at there
          cases there
        rw [different, full]
        exact found

/-- Who asks for a key that is there is given its value. -/
theorem event_of_present [EquivBEq κ] (r : Request κ ν ε) (found : c.find? key = some value) {k : κ}
    (about : (r.event c).key? = some k) (same : (k == key) = true) :
    r.event c = .looked k (some value) ∨ r.event c = .hit k value := by
  have there : c.find? k = some value := (find_congr c same).trans found
  cases r with
  | look other =>
    obtain rfl : other = k := by simpa [Request.event, Event.key?] using about
    exact .inl (by rw [Request.event, there])
  | clear => cases about
  | call other compile =>
    have asked : other = k := by
      dsimp only [Request.event] at about
      split at about <;> exact Option.some.inj about
    subst asked
    exact .inr (by simp only [Request.event, there])

end Steps

/-! ### Whole runs -/

section Runs

variable [BEq κ]

theorem Accounts.run [EquivBEq κ] {past : List (Event κ ν)} {c : Cache κ ν} (accounts : Accounts past c)
    (requests : List (Request κ ν ε)) : Accounts (past ++ journal c requests) (c.run requests) := by
  induction requests generalizing past c with
  | nil => simpa [journal, Cache.run] using accounts
  | cons r rest ih => simpa [journal, run_cons] using ih (accounts.serve r)

theorem accounts_ofCapacity (capacity : Nat) : Accounts [] (ofCapacity capacity : Cache κ ν) :=
  ⟨Nat.le_max_right .., Nat.zero_le _, List.Pairwise.nil, fun _ kept => absurd kept List.not_mem_nil, rfl, rfl, rfl, rfl⟩

theorem capacity_run (c : Cache κ ν) (requests : List (Request κ ν ε)) : (c.run requests).capacity = c.capacity := by
  induction requests generalizing c with
  | nil => rfl
  | cons r rest ih => rw [run_cons, ih, capacity_serve]

theorem countP_calls (c : Cache κ ν) (requests : List (Request κ ν ε)) : requests.countP Request.isCall =
    (journal c requests).countP Event.isHit +
      ((journal c requests).countP Event.isMade + (journal c requests).countP Event.isFailed) := by
  induction requests generalizing c with
  | nil => rfl
  | cons r rest ih =>
    rw [journal, List.countP_cons, List.countP_cons, List.countP_cons, List.countP_cons, ih (r.serve c)]
    cases r with
    | call key compile =>
      cases found : c.find? key <;> cases outcome : compile key <;>
        simp [Request.isCall, Request.event, found, outcome, Event.isHit, Event.isMade, Event.isFailed] <;> omega
    | _ => simp [Request.isCall, Request.event, Event.isHit, Event.isMade, Event.isFailed]

/-- What is there is given to everyone who asks, until the cache is emptied. -/
theorem given_while_kept [EquivBEq κ] {c : Cache κ ν} (room : 1 ≤ c.capacity) {key : κ} {value : ν}
    (found : c.find? key = some value) (requests : List (Request κ ν ε)) {between after : List (Event κ ν)} {e : Event κ ν}
    (split : journal c requests = between ++ e :: after) (kept : ∀ x ∈ between, x.isEmptying = false)
    {k : κ} (about : e.key? = some k) (same : (k == key) = true) : e = .looked k (some value) ∨ e = .hit k value := by
  induction between generalizing c requests with
  | nil =>
    cases requests with
    | nil => cases split
    | cons r rest =>
      obtain ⟨rfl, -⟩ := List.cons.inj split
      exact event_of_present r found about same
  | cons x between ih =>
    cases requests with
    | nil => cases split
    | cons r rest =>
      obtain ⟨rfl, tail⟩ := List.cons.inj split
      have here := kept _ List.mem_cons_self
      exact ih (by rwa [capacity_serve]) (find_serve room r found here) rest tail fun y given =>
        kept y (List.mem_cons_of_mem _ given)

theorem find_made [EquivBEq κ] {c : Cache κ ν} (r : Request κ ν ε) {key : κ} {value : ν} {full : Bool}
    (made : r.event c = .made key value full) : (r.serve c).find? key = some value := by
  cases r with
  | call other compile =>
    dsimp only [Request.event, Request.serve] at made ⊢
    split at made
    · cases made
    · rename_i absent outcome
      cases made
      rw [getOrCompile_made absent outcome, find_insert, beq_self_eq_true]
      rfl
    · cases made
  | _ => cases made

/-- From its compilation on, a key is not compiled again and all are given the same, until the cache is emptied. -/
theorem given_since_made [EquivBEq κ] {c : Cache κ ν} (room : 1 ≤ c.capacity) (requests : List (Request κ ν ε))
    {key : κ} {value : ν} {full : Bool} {before between after : List (Event κ ν)} {e : Event κ ν}
    (split : journal c requests = before ++ .made key value full :: (between ++ e :: after))
    (kept : ∀ x ∈ between, x.isEmptying = false) {k : κ} (about : e.key? = some k) (same : (k == key) = true) :
    e = .looked k (some value) ∨ e = .hit k value := by
  induction before generalizing c requests with
  | nil =>
    cases requests with
    | nil => cases split
    | cons r rest =>
      obtain ⟨made, tail⟩ := List.cons.inj split
      exact given_while_kept (by rwa [capacity_serve]) (find_made r made) rest tail kept about same
  | cons x before ih =>
    cases requests with
    | nil => cases split
    | cons r rest => exact ih (by rwa [capacity_serve]) rest (List.cons.inj split).2

/-- What can be said of a cache of any capacity after any requests. -/
theorem run_keeps_accounts [EquivBEq κ] (capacity : Nat) (requests : List (Request κ ν ε)) :
    let c := (ofCapacity capacity : Cache κ ν).run requests
    let events := journal (ofCapacity capacity) requests
    c.size ≤ max capacity 1 ∧
    c.entries.Pairwise (fun a b => (a.1 == b.1) = false) ∧
    (∀ entry ∈ c.entries, latest? events entry.1 = some entry.2) ∧
    -- The compiler is asked where the key is absent, and nowhere else.
    (∀ (key : κ) (compile : κ → Except ε ν), match c.find? key, compile key with
      | some value, _ => getOrCompile key compile c = (.ok value, { c with hits := c.hits + 1 })
      | none, .ok value =>
        (getOrCompile key compile c).1 = .ok value ∧ (getOrCompile key compile c).2.find? key = some value
      | none, .error e => getOrCompile key compile c = (.error e, { c with misses := c.misses + 1 })) ∧
    (∀ (key : κ) (value : ν) (full : Bool) (before between after : List (Event κ ν)) (e : Event κ ν),
      events = before ++ .made key value full :: (between ++ e :: after) →
      (∀ x ∈ between, x.isEmptying = false) → ∀ k, e.key? = some k → (k == key) = true →
      e = .looked k (some value) ∨ e = .hit k value) ∧
    c.hits + c.misses = requests.countP Request.isCall ∧
    c.misses = events.countP Event.isMade + events.countP Event.isFailed ∧
    c.compiles = events.countP Event.isMade ∧
    c.evictions = events.countP Event.isEviction := by
  intro c events
  have accounts : Accounts events c := (accounts_ofCapacity capacity).run requests
  refine ⟨?_, accounts.distinct, accounts.latest, fun key compile => ?_, ?_, ?_, accounts.misses, accounts.compiles,
    accounts.evictions⟩
  · exact Nat.le_trans accounts.size (Nat.le_of_eq (capacity_run (ofCapacity capacity) requests))
  · cases found : c.find? key with
    | some value => exact getOrCompile_present found compile
    | none =>
      cases outcome : compile key with
      | error e => exact getOrCompile_failed found outcome
      | ok value =>
        simp only [getOrCompile_made found outcome, true_and]
        rw [find_insert, beq_self_eq_true]
        rfl
  · intro key value full before between after e split kept k about same
    exact given_since_made (Nat.le_max_right ..) requests split kept about same
  · rw [accounts.hits, accounts.misses, countP_calls (ofCapacity capacity) requests]

/-- With room for two, the third key empties the cache, and a key that fails is asked for again. -/
theorem run_past_room :
    let keep (key : Nat) : Except String Nat := .ok (10 * key)
    let requests : List (Request Nat Nat String) :=
      [.call 0 keep, .call 1 keep, .call 1 keep, .call 2 keep, .call 3 fun _ => .error "boom", .look 2]
    let c := (ofCapacity 2).run requests
    c.size ≤ 2 ∧ c.hits + c.misses = 5 ∧ c.misses = 4 ∧ c.compiles = 3 ∧ c.evictions = 1 := by
  intro keep requests c
  obtain ⟨size, -, -, -, -, calls, misses, compiles, evictions⟩ := run_keeps_accounts 2 requests
  exact ⟨size, calls, misses, compiles, evictions⟩

end Runs

end QueryTree.Cache
