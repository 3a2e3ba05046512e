import QueryTree.Proofs.Node.Parts

/-! Rules over whole trees.

A rule is applied to every node from the leaves up. What it brings about, or keeps, in one layer holds then of all of
them, and a rule that finds nothing to change in any node leaves the tree.
-/

set_option autoImplicit false

namespace QueryTree

@[simp] theorem Shape.kind_bare {α : Type} (s : Shape α) : s.bare.kind = s.kind := Shape.kind_map _ s

/-- Nothing is asked of layers of these kinds. -/
def Shape.Free (fine : Shape Unit → Bool) (kinds : List Kind) : Prop := ∀ s, s.kind ∈ kinds → fine s = true

theorem Shape.Free.mono {fine : Shape Unit → Bool} {kinds fewer : List Kind} (free : Shape.Free fine kinds)
    (among : fewer ⊆ kinds) : Shape.Free fine fewer := fun s kind => free s (among kind)

theorem Shape.map_still {α : Type} {s : Shape α} {f : α → α} (each : ∀ c ∈ s.children, f c = c) : s.map f = s :=
  (map_congr each).trans (map_id s)

namespace Node

variable {rule : Node → Node}

theorem mapUp_still {n : Node} (still : ∀ m ∈ n.subtrees, rule m = m) : n.mapUp rule = n := by
  induction n using inductNode with
  | step s ih =>
    have below : s.map (mapUp rule) = s :=
      Shape.map_still fun c child => ih c child fun m member => still m (mem_subtrees_of_child child member)
    rw [mapUp_mk, below]
    exact still _ (self_mem_subtrees _)

theorem mapUp_outermost {β : Type} {look : Node → β} (layer : ∀ (s : Shape Node) (f : Node → Node),
    look (.mk (s.map f)) = look (.mk s)) (kept : ∀ n, look (rule n) = look n) (n : Node) :
    look (n.mapUp rule) = look n := by
  obtain ⟨s⟩ := n
  rw [mapUp_mk, kept, layer]

/-! ### Layers -/

section Layers

variable {fine : Shape Unit → Bool}

theorem every_free {kinds : List Kind} (free : Shape.Free fine kinds) {s : Shape Node} (kind : s.kind ∈ kinds)
    (below : ∀ c ∈ s.children, c.every fine = true) : (Node.mk s).every fine = true :=
  every_mk.mpr ⟨free _ (by rwa [Shape.kind_bare]), below⟩

theorem every_subtree {n : Node} (given : n.every fine = true) {s : Shape Node} (member : .mk s ∈ n.subtrees) :
    fine s.bare = true := by
  induction n using inductNode with
  | step t ih =>
    obtain ⟨here, below⟩ := every_mk.mp given
    rw [subtrees_mk] at member
    rcases List.mem_cons.mp member with same | inside
    · cases same
      exact here
    · obtain ⟨c, child, inside⟩ := List.mem_flatMap.mp inside
      exact ih c child (below c child) inside

theorem every_mono {weaker : Shape Unit → Bool} (weaken : ∀ s, fine s = true → weaker s = true) {n : Node}
    (given : n.every fine = true) : n.every weaker = true := by
  induction n using inductNode with
  | step s ih =>
    obtain ⟨here, below⟩ := every_mk.mp given
    exact every_mk.mpr ⟨weaken _ here, fun c child => ih c child (below c child)⟩

theorem every_ofMapUp (step : ∀ s : Shape Node, (∀ c ∈ s.children, c.every fine = true) →
    (rule (.mk s)).every fine = true) (n : Node) : (n.mapUp rule).every fine = true := by
  induction n using inductNode with
  | step s ih =>
    rw [mapUp_mk]
    apply step
    rw [Shape.children_map]
    exact List.forall_mem_map.mpr ih

theorem every_mapUp (step : ∀ n : Node, n.every fine = true → (rule n).every fine = true) {n : Node}
    (given : n.every fine = true) : (n.mapUp rule).every fine = true := by
  induction n using inductNode with
  | step s ih =>
    obtain ⟨here, below⟩ := every_mk.mp given
    rw [mapUp_mk]
    refine step _ (every_mk.mpr ⟨by rwa [Shape.bare_map], ?_⟩)
    rw [Shape.children_map]
    exact List.forall_mem_map.mpr fun c child => ih c child (below c child)

end Layers

/-! ### Lists of statements -/

/-- Every list of statements in the tree is as it should be. -/
def Lists (fine : List Node → Prop) (n : Node) : Prop := ∀ list, .statements list ∈ n.subtrees → fine list

variable {fine : List Node → Prop}

theorem lists_mk {s : Shape Node} :
    (Node.mk s).Lists fine ↔ (∀ list, s = .statements list → fine list) ∧ ∀ c ∈ s.children, c.Lists fine := by
  simp only [Lists, subtrees_mk, List.mem_cons, List.mem_flatMap]
  constructor
  · intro lists
    exact ⟨fun list same => lists list (.inl (congrArg Node.mk same.symm)),
      fun c child list member => lists list (.inr ⟨c, child, member⟩)⟩
  · rintro ⟨here, below⟩ list (same | ⟨c, child, member⟩)
    · exact here list (Node.mk.inj same).symm
    · exact below c child list member

theorem lists_statements {list : List Node} :
    (Node.statements list).Lists fine ↔ fine list ∧ ∀ m ∈ list, m.Lists fine := by
  rw [lists_mk]
  exact and_congr_left fun _ => ⟨fun here => here list rfl, by rintro here _ ⟨⟩; exact here⟩

theorem lists_empty (empty : fine []) : (Node.statements []).Lists fine :=
  lists_statements.mpr ⟨empty, fun _ member => absurd member List.not_mem_nil⟩

theorem lists_other {s : Shape Node} (notList : s.kind ≠ .statements) :
    (Node.mk s).Lists fine ↔ ∀ c ∈ s.children, c.Lists fine := by
  rw [lists_mk]
  exact and_iff_right (by rintro list rfl; exact absurd rfl notList)

theorem lists_ofEvery {layers : Shape Unit → Bool} (none : ∀ s, layers s = true → s.kind ≠ .statements) {n : Node}
    (given : n.every layers = true) : n.Lists fine := fun _ member =>
  absurd rfl (none _ (every_subtree given member))

/-- A rule that changes lists where it meets them, and elsewhere brings none that are not as they should be. -/
theorem lists_mapUp {before : List Node → Prop}
    (other : ∀ s : Shape Node, s.kind ≠ .statements → (∀ c ∈ s.children, c.Lists fine) → (rule (.mk s)).Lists fine)
    (listed : ∀ list : List Node, before list → (∀ m ∈ list, (m.mapUp rule).Lists fine) →
      (rule (.statements (list.map (mapUp rule)))).Lists fine) {n : Node} (given : n.Lists before) :
    (n.mapUp rule).Lists fine := by
  induction n using inductNode with
  | step s ih =>
    have below := (lists_mk.mp given).2
    rw [mapUp_mk]
    by_cases lists : s.kind = .statements
    · cases s with
      | statements list =>
        exact listed list (lists_statements.mp given).1 fun m member => ih m member (below m member)
      | _ => cases lists
    · refine other _ (by rwa [Shape.kind_map]) ?_
      rw [Shape.children_map]
      exact List.forall_mem_map.mpr fun c child => ih c child (below c child)

end Node

end QueryTree
