import QueryTree.Proofs.Command.Likeness

/-! The text of nested lists of statements.

A list of statements may have lists of statements in it, to any depth. It is written as its statements are in order, and
it does not show in which list each of them stood.
-/

set_option autoImplicit false

namespace QueryTree

/-! ### Sequences -/

namespace Node

/-- The statements of nested lists in order. What is no list is one statement. -/
def sequence : Node → List Node := para fun
  | .statements list => list.flatMap Prod.snd
  | s => [.mk (s.map Prod.fst)]

variable {n : Node}

theorem sequence_statements (list : List Node) : (statements list).sequence = list.flatMap sequence := by
  rw [sequence, para_mk]
  exact List.flatMap_map ..

theorem sequence_single {s : Shape Node} (single : s.kind ≠ .statements) : (mk s).sequence = [mk s] := by
  rw [sequence, para_mk]
  cases s with
  | statements list => exact absurd rfl single
  | _ => exact congrArg (fun t => [mk t]) (by rw [Shape.map_map, Shape.map_id])

theorem single_of_mem {m : Node} (member : m ∈ n.sequence) : m.kind ≠ .statements := by
  induction n using inductNode with
  | step s ih =>
    by_cases single : s.kind = .statements
    · cases s with
      | statements list =>
        rw [sequence_statements] at member
        obtain ⟨inner, listed, inside⟩ := List.mem_flatMap.mp member
        exact ih inner listed inside
      | _ => cases single
    · rw [sequence_single single] at member
      obtain rfl := List.mem_singleton.mp member
      exact single

end Node

/-! ### Sequences with texts that correspond -/

/-- The texts of two trees correspond, and those of their statements one by one. -/
structure Likeness.InOrder (L : Likeness) (d : Dialect) (m n : Node) : Prop where
  whole : L.Like (d.spell m) (d.spell n)
  each : List.Forall₂ (fun m n => L.Like (d.spell m) (d.spell n)) m.sequence n.sequence

namespace Likeness.InOrder

variable {L : Likeness} {d : Dialect} {m n : Node}

theorem single (whole : L.Like (d.spell m) (d.spell n)) (first : m.kind ≠ .statements) (second : n.kind ≠ .statements) :
    L.InOrder d m n := by
  refine ⟨whole, ?_⟩
  cases m with
  | mk s =>
    cases n with
    | mk t =>
      rw [Node.sequence_single (s := s) first, Node.sequence_single (s := t) second]
      exact .cons whole .nil

theorem self (like : ∀ n, L.Like (d.spell n) (d.spell n)) (n : Node) : L.InOrder d n n :=
  ⟨like n, List.forall₂_same.mpr fun m _ => like m⟩

theorem layer {z : Shape (Node × Node)}
    (whole : L.Like (d.spell (.mk (z.map Prod.fst))) (d.spell (.mk (z.map Prod.snd))))
    (each : ∀ c ∈ z.children, L.InOrder d c.1 c.2) : L.InOrder d (.mk (z.map Prod.fst)) (.mk (z.map Prod.snd)) := by
  cases z with
  | statements list =>
    refine ⟨whole, ?_⟩
    show List.Forall₂ _ (Node.statements (list.map Prod.fst)).sequence (Node.statements (list.map Prod.snd)).sequence
    rw [Node.sequence_statements, Node.sequence_statements, List.flatMap_map, List.flatMap_map]
    have members : List.Forall₂ (fun c c' => c = c' ∧ c ∈ list) list list :=
      List.forall₂_same.mpr fun c member => ⟨rfl, member⟩
    refine List.rel_flatMap members ?_
    rintro c _ ⟨rfl, member⟩
    exact (each c member).each
  | _ => exact single whole nofun nofun

end Likeness.InOrder

/-! ### Wordings in groups -/

namespace Wording

variable {separator : String}

theorem joined_append {ws vs : List Wording} (first : ws ≠ []) (second : vs ≠ []) :
    joined separator (ws ++ vs) = joined separator ws ++ ofText separator ++ joined separator vs := by
  obtain ⟨v, others, rfl⟩ := List.exists_cons_of_ne_nil second
  induction ws with
  | nil => exact absurd rfl first
  | cons w rest ih =>
    cases rest with
    | nil => rfl
    | cons x rest =>
      have later := ih (List.cons_ne_nil x rest)
      have step (ws : List Wording) :
          joined separator (w :: x :: ws) = w ++ ofText separator ++ joined separator (x :: ws) := rfl
      rw [List.cons_append, List.cons_append, step, ← List.cons_append, later, step]
      simp only [List.append_assoc]

theorem joined_groups {groups : List (List Wording)} (filled : ∀ g ∈ groups, g ≠ []) :
    joined separator (groups.map (joined separator)) = joined separator groups.flatten := by
  induction groups with
  | nil => rfl
  | cons first rest ih =>
    obtain ⟨here, later⟩ := List.forall_mem_cons.mp filled
    cases rest with
    | nil => simp [joined]
    | cons second rest =>
      have more : (second :: rest).flatten ≠ [] := by simp [later second List.mem_cons_self]
      rw [List.flatten_cons, joined_append here more, ← ih later]
      rfl

theorem joined_isBlank {ws : List Wording} (filled : ws ≠ []) (each : ∀ w ∈ ws, w.isBlank = false) :
    (joined separator ws).isBlank = false := by
  obtain ⟨w, rest, rfl⟩ := List.exists_cons_of_ne_nil filled
  have here : w.isBlank = false := each w List.mem_cons_self
  cases rest with
  | nil => exact here
  | cons v rest =>
    have same : joined separator (w :: v :: rest) = w ++ (ofText separator ++ joined separator (v :: rest)) := by
      rw [← List.append_assoc]
      rfl
    unfold isBlank at here ⊢
    rw [same, List.all_append, here, Bool.false_and]

def written (ws : List Wording) : List Wording := ws.filter fun w => !w.isBlank

/-- `ws` are groups of `vs`, joined. -/
def Groups (separator : String) (ws vs : List Wording) : Prop :=
  ∃ groups : List (List Wording), (∀ g ∈ groups, g ≠ []) ∧ ws = groups.map (joined separator) ∧ vs = groups.flatten

theorem Groups.append {ws vs ws' vs' : List Wording} (first : Groups separator ws vs)
    (second : Groups separator ws' vs') : Groups separator (ws ++ ws') (vs ++ vs') := by
  obtain ⟨groups, filled, rfl, rfl⟩ := first
  obtain ⟨others, filled', rfl, rfl⟩ := second
  refine ⟨groups ++ others, fun g member => ?_, by simp, by simp⟩
  exact (List.mem_append.mp member).elim (filled g) (filled' g)

theorem Groups.joined {ws vs : List Wording} (groups : Groups separator ws vs) :
    joined separator ws = joined separator vs := by
  obtain ⟨groups, filled, rfl, rfl⟩ := groups
  exact joined_groups filled

theorem groups_self (ws : List Wording) : Groups separator ws ws := by
  refine ⟨ws.map fun w => [w], by simp, by simp [Function.comp_def, Wording.joined], ?_⟩
  rw [← List.flatMap_def, List.flatMap_singleton']

theorem groups_joined (vs : List Wording) :
    Groups separator (written [Wording.joined separator (written vs)]) (written vs) := by
  by_cases empty : written vs = []
  · rw [empty]
    exact ⟨[], nofun, rfl, rfl⟩
  · have shown : (Wording.joined separator (written vs)).isBlank = false := by
      apply joined_isBlank empty
      intro w member
      simpa using (List.mem_filter.mp member).2
    have alone : written [Wording.joined separator (written vs)] = [Wording.joined separator (written vs)] :=
      List.filter_eq_self.mpr (by simp [shown])
    exact ⟨[written vs], by simpa using empty, alone, by simp⟩

end Wording

/-! ### Texts -/

namespace Dialect

variable (d : Dialect) (p : Place)

theorem statement_statements (list : List Node) : (d.spell (.statements list)).statement p = do
    let texts ← list.mapM fun m => (d.spell m).statement p
    return .joined "; " (Wording.written texts) := by
  rw [spell_mk]
  change (do
    let texts ← (list.map d.spell).mapM (·.statement p)
    return Wording.joined "; " (Wording.written texts) : Except CompileError Wording) = _
  rw [List.mapM_map]
  rfl

theorem statements_groups {list : List Node}
    (each : ∀ m ∈ list, Agree (· = ·) (fun w vs => Wording.Groups "; " (Wording.written [w]) (Wording.written vs))
      ((d.spell m).statement p) (m.sequence.mapM fun s => (d.spell s).statement p)) :
    Agree (· = ·) (fun ws vs => Wording.Groups "; " (Wording.written ws) (Wording.written vs))
      (list.mapM fun m => (d.spell m).statement p)
      ((list.flatMap Node.sequence).mapM fun s => (d.spell s).statement p) := by
  induction list with
  | nil => exact ⟨[], nofun, rfl, rfl⟩
  | cons m rest ih =>
    obtain ⟨first, later⟩ := List.forall_mem_cons.mp each
    rw [List.mapM_cons, List.flatMap_cons, List.mapM_append]
    refine first.bind fun w vs here => (ih later).bind fun ws others there => ?_
    -- What is blank is left out of either side before it is put together.
    have together := here.append there
    simp only [Wording.written, ← List.filter_append] at together
    exact together

theorem statement_groups (n : Node) : Agree (· = ·)
    (fun w vs => Wording.Groups "; " (Wording.written [w]) (Wording.written vs))
    ((d.spell n).statement p) (n.sequence.mapM fun s => (d.spell s).statement p) := by
  induction n using Node.inductNode with
  | step s ih =>
    by_cases single : s.kind = .statements
    · cases s with
      | statements list =>
        rw [statement_statements, Node.sequence_statements,
          ← bind_pure ((list.flatMap Node.sequence).mapM fun s => (d.spell s).statement p)]
        refine (statements_groups d p ih).bind fun ws vs groups => ?_
        change Wording.Groups "; " (Wording.written [Wording.joined "; " (Wording.written ws)]) (Wording.written vs)
        -- The list is one wording, so that all of its statements are one group.
        rw [groups.joined]
        exact Wording.groups_joined vs
      | _ => cases single
    · rw [Node.sequence_single single, List.mapM_cons, List.mapM_nil]
      cases (d.spell (.mk s)).statement p with
      | error e => rfl
      | ok w => exact Wording.groups_self _

/-- A list is written as the statements of its sequence are, whatever lists they stood in. -/
theorem statement_sequence {n : Node} (listed : n.kind = .statements) : (d.spell n).statement p = do
    let texts ← n.sequence.mapM fun s => (d.spell s).statement p
    return .joined "; " (Wording.written texts) := by
  obtain ⟨s⟩ := n
  cases s with
  | statements list =>
    rw [statement_statements, Node.sequence_statements]
    apply Agree.eq
    refine (statements_groups d p fun m _ => statement_groups d p m).bind fun ws vs groups => ?_
    exact groups.joined
  | _ => cases listed

end Dialect

end QueryTree
