import Mathlib.Data.List.Nodup
import QueryTree.Proofs.Node.Traversal
import QueryTree.Pass.Sources

/-! What following references does to one layer.

Only columns are replaced. A column that no mapping resolves stays, and any other makes place for its meaning, in
which references are followed one step less.
-/

set_option autoImplicit false

namespace QueryTree

theorem find_keyed {α : Type} {key : α → String} {l : List α} (distinct : (l.map key).Nodup) {a : α} {k : String} :
    l.find? (fun x => key x == k) = some a ↔ a ∈ l ∧ key a = k := by
  constructor
  · intro found
    exact ⟨List.mem_of_find?_eq_some found, by simpa using List.find?_some found⟩
  · rintro ⟨member, rfl⟩
    have some : (l.find? fun x => key x == key a).isSome := List.find?_isSome.mpr ⟨a, member, by simp⟩
    obtain ⟨b, found⟩ := Option.isSome_iff_exists.mp some
    have same : key b = key a := by simpa using List.find?_some found
    rw [found, List.inj_on_of_nodup_map distinct (List.mem_of_find?_eq_some found) member same]

namespace Mapping

variable {mappings : List Mapping} {c : Column}

theorem follow_mk (mappings : List Mapping) (depth : Nat) {s : Shape Node} (notColumn : s.kind ≠ .column) :
    follow mappings depth (.mk s) = .mk (s.map (follow mappings depth)) := by
  cases depth with
  | zero =>
    have same : follow mappings 0 = fun n => n := rfl
    rw [same, Shape.map_id]
  | succ depth =>
    unfold follow
    rw [Node.mapUp_mk]
    cases s <;> first | rfl | exact absurd rfl notColumn

theorem follow_column (depth : Nat) : follow mappings (depth + 1) (.column c) =
    ((mappings.findSome? (·.resolve? c)).map (follow mappings depth)).getD (.column c) := by
  unfold follow
  rw [Node.mapUp_mk]
  dsimp only [Shape.map]
  split
  · rename_i found
    rw [found]
    rfl
  · rename_i none
    rw [none]
    rfl

theorem follow_kept (none : mappings.findSome? (·.resolve? c) = none) (depth : Nat) :
    follow mappings depth (.column c) = .column c := by
  cases depth with
  | zero => rfl
  | succ depth =>
    rw [follow_column, none]
    rfl

theorem follow_found {meaning : Node} (found : mappings.findSome? (·.resolve? c) = some meaning) (depth : Nat) :
    follow mappings (depth + 1) (.column c) = follow mappings depth meaning := by
  rw [follow_column, found]
  rfl

theorem follow_nil (depth : Nat) (n : Node) : follow [] depth n = n := by
  induction n using Node.inductNode with
  | step s ih =>
    by_cases column : s.kind = .column
    · cases s with
      | column c => exact follow_kept rfl depth
      | _ => cases column
    · rw [follow_mk _ _ column, Shape.map_congr ih, Shape.map_id]

theorem expr_some {m : Mapping} {name : String} {e : Node} (found : m.expr? name = some e) :
    ∃ b ∈ m.columns, b.name = name ∧ b.expr = e := by
  obtain ⟨b, last, rfl⟩ := Option.map_eq_some_iff.mp found
  exact ⟨b, List.mem_reverse.mp (List.mem_of_find?_eq_some last), by simpa using List.find?_some last, rfl⟩

theorem expr_first {m : Mapping} (distinct : (m.columns.map (·.name)).Nodup) (name : String) :
    m.expr? name = (m.columns.find? (·.name == name)).map (·.expr) := by
  have reversed : (m.columns.reverse.map (·.name)).Nodup := by
    rw [List.map_reverse]
    exact List.nodup_reverse.mpr distinct
  have same : m.columns.reverse.find? (·.name == name) = m.columns.find? (·.name == name) := by
    ext b
    rw [find_keyed reversed, find_keyed distinct, List.mem_reverse]
  unfold expr?
  rw [same]

theorem findSome_agree {α β : Type} {f : α → Option β} {l : List α} {answer : Option β}
    (each : ∀ a ∈ l, f a = none ∨ f a = answer) (one : answer = none ∨ ∃ a ∈ l, f a = answer) :
    l.findSome? f = answer := by
  cases found : l.findSome? f with
  | none =>
    rcases one with none | ⟨a, member, same⟩
    · exact none.symm
    · rw [← same, List.findSome?_eq_none_iff.mp found a member]
  | some b =>
    obtain ⟨a, member, same⟩ := List.exists_of_findSome?_eq_some found
    rcases each a member with none | agrees
    · cases none.symm.trans same
    · rw [← same, agrees]

/-- A reference is resolved to what declares it or, in a select that passes columns on, to the column of its name in the
source. -/
theorem resolve_some {m : Mapping} {meaning : Node} (resolved : m.resolve? c = some meaning) : m.label = c.label ∧
    ((∃ b ∈ m.columns, b.name = c.name ∧ b.expr = meaning) ∨
      ∃ owner ∈ m.passthrough, meaning = .column { c with label := owner }) := by
  unfold resolve? at resolved
  split at resolved
  · rename_i same
    refine ⟨(beq_iff_eq.mp same).symm, ?_⟩
    cases named : m.expr? c.name with
    | some e =>
      rw [named] at resolved
      cases resolved
      exact .inl (expr_some named)
    | none =>
      rw [named] at resolved
      obtain ⟨owner, passesOn, rfl⟩ := Option.map_eq_some_iff.mp resolved
      exact .inr ⟨owner, passesOn, rfl⟩
  · cases resolved

theorem resolved (found : mappings.findSome? (·.resolve? c) ≠ none) : ∃ m ∈ mappings, m.label = c.label := by
  obtain ⟨meaning, found⟩ := Option.ne_none_iff_exists'.mp found
  obtain ⟨m, member, found⟩ := List.exists_of_findSome?_eq_some found
  exact ⟨m, member, (resolve_some found).1⟩

end Mapping

end QueryTree
