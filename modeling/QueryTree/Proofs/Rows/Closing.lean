import QueryTree.Proofs.Pass.Remapping
import QueryTree.Proofs.Rows.Selects

/-! The rows of a select in which references were followed.

Following references replaces columns only, so an expression comes to the same before and after if each column reads
as what it is replaced by. How far references are followed makes no difference once they have come to an end.
-/

set_option autoImplicit false

namespace QueryTree

variable {mappings : List Mapping} {depth : Nat}

namespace Mapping

/-- No select is mapped by its wildcard. -/
def NoWildcard (mappings : List Mapping) : Prop := ∀ m ∈ mappings, ∀ b ∈ m.columns, b.isWildcard = false

theorem evaluate_follow {β : Type} (leaf : Column → β) (step : Shape β → β) (n : Node) :
    (follow mappings depth n).evaluate leaf step =
      n.evaluate (fun c => (follow mappings depth (.column c)).evaluate leaf step) step := by
  induction n using Node.inductNode with
  | step s ih =>
    by_cases column : s.kind = .column
    · cases s with
      | column c => rw [Node.evaluate_column]
      | _ => cases column
    · rw [follow_mk _ _ column, Node.evaluate_mk _ _ (by rwa [Shape.kind_map]), Node.evaluate_mk _ _ column,
        Shape.map_map, Shape.map_congr ih]

/-- The columns that are in scope once references are followed. -/
def closedScope (mappings : List Mapping) (depth : Nat) (scope : Column → Bool) : Column → Bool :=
  fun c => (follow mappings depth (.column c)).isBound scope

/-- How columns read that are to be followed. -/
def closedReading (e : Engine) (mappings : List Mapping) (depth : Nat) : Engine.Reading :=
  fun r c => e.value (Engine.byName r) (follow mappings depth (.column c))

theorem isBound_follow (scope : Column → Bool) (n : Node) :
    (follow mappings depth n).isBound scope = n.isBound (closedScope mappings depth scope) := evaluate_follow _ _ n

theorem value_follow (e : Engine) (r : Record) (n : Node) :
    e.value (Engine.byName r) (follow mappings depth n) = e.value (closedReading e mappings depth r) n :=
  evaluate_follow _ _ n

theorem follow_wildcard (noWildcard : NoWildcard mappings) (depth : Nat) {c : Column} (wild : c.name = Node.wildcard) :
    ∃ c', follow mappings depth (.column c) = .column c' ∧ c'.name = Node.wildcard := by
  induction depth generalizing c with
  | zero => exact ⟨c, rfl, wild⟩
  | succ depth ih =>
    rcases found : mappings.findSome? (·.resolve? c) with _ | meaning
    · exact ⟨c, follow_kept found _, wild⟩
    · rw [follow_found found]
      obtain ⟨m, member, resolved⟩ := List.exists_of_findSome?_eq_some found
      obtain ⟨-, ⟨b, column, name, -⟩ | ⟨owner, -, rfl⟩⟩ := resolve_some resolved
      · have other := noWildcard m member b column
        rw [Binding.isWildcard, name, wild, beq_self_eq_true] at other
        cases other
      · exact ih wild

end Mapping

/-! ### Selects -/

namespace Select

variable {q : Select Node} {scope : Column → Bool}

theorem isWildcard_named (named : q.projectsStar = false) : q.isWildcard = false := by
  unfold projectsStar at named
  rw [Bool.or_eq_false_iff, List.any_eq_false] at named
  unfold isWildcard
  cases columns : q.columns with
  | nil => simp [columns] at named
  | cons b rest =>
    have first := named.2 b (by simp [columns])
    simp [first]

open Mapping

theorem isWildcard_follow (depth : Nat) (noWildcard : NoWildcard mappings) (simple : q.Simple scope) :
    (q.map (follow mappings depth)).isWildcard = q.isWildcard := by
  rcases simple.columns with wild | ⟨named, -⟩
  · rw [wild]
    unfold isWildcard
    simp only [Select.map, List.all_map, List.all_eq_true]
    intro b column
    obtain ⟨name, c, reference, wildcard⟩ := isWildcard_column wild column
    obtain ⟨c', followed, still⟩ := follow_wildcard noWildcard depth wildcard
    refine Bool.and_eq_true_iff.mpr ⟨name, ?_⟩
    simp [Binding.map, reference, followed, Node.column?, still]
  · rw [isWildcard_named named, isWildcard_named ((projectsStar_names (names_map q _)).trans named)]

theorem Simple.follow (noWildcard : NoWildcard mappings) (simple : q.Simple (closedScope mappings depth scope)) :
    (q.map (follow mappings depth)).Simple scope where
  groupBy := by simp [Select.map, simple.groupBy]
  distinct := simple.distinct
  skip := by simp [Select.map, simple.skip]
  take := by simp [Select.map, simple.take]
  forUpdate := simple.forUpdate
  columns := by
    rw [isWildcard_follow depth noWildcard simple, projectsStar_names (Select.names_map q _)]
    rcases simple.columns with wild | ⟨named, each⟩
    · exact .inl wild
    · refine .inr ⟨named, fun b column => ?_⟩
      obtain ⟨a, inColumns, rfl⟩ := List.mem_map.mp column
      exact (isBound_follow scope _).trans (each a inColumns)
  filter := by
    intro f member
    obtain ⟨g, inFilter, rfl⟩ := Option.map_eq_some_iff.mp member
    exact (isBound_follow scope _).trans (simple.filter g inFilter)
  orderBy := by
    intro o member
    obtain ⟨p, inOrder, rfl⟩ := List.mem_map.mp member
    exact (isBound_follow scope _).trans (simple.orderBy p inOrder)

end Select

namespace Engine

open Mapping

variable (e : Engine) {q : Select Node} {scope : Column → Bool}

theorem inOrder_follow (items : List (OrderItem Node)) :
    e.inOrder byName (items.map (·.map (follow mappings depth))) = e.inOrder (closedReading e mappings depth) items := by
  induction items with
  | nil => rfl
  | cons o rest ih =>
    have key : e.byKey byName (o.map (follow mappings depth)) = e.byKey (closedReading e mappings depth) o := by
      funext a b
      simp only [byKey, OrderItem.map, value_follow]
    funext a b
    simp only [List.map_cons, inOrder, ih, key]

theorem answer_follow (noWildcard : NoWildcard mappings) (simple : q.Simple scope) (source : Relation) :
    e.answer byName (q.map (follow mappings depth)) source = e.answer (closedReading e mappings depth) q source := by
  have wild := Select.isWildcard_follow depth noWildcard simple
  have names : (q.map (follow mappings depth)).exposed source.names = q.exposed source.names := by
    unfold Select.exposed
    rw [wild]
    simp [Select.map, Binding.map, Function.comp_def]
  have passes : e.passes byName (q.map (follow mappings depth)).filter =
      e.passes (closedReading e mappings depth) q.filter := by
    funext r
    unfold Engine.passes
    cases filter : q.filter with
    | none => simp [Select.map, filter]
    | some f => simp [Select.map, filter, value_follow]
  have project : e.project byName (q.map (follow mappings depth)) = e.project (closedReading e mappings depth) q := by
    funext r
    unfold Engine.project
    rw [wild]
    simp [Select.map, List.find?_map, Function.comp_def, Binding.map, value_follow]
  unfold answer sort
  rw [names, passes, project]
  simp only [Select.map, e.inOrder_follow]

end Engine

end QueryTree
