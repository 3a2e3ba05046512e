import Mathlib.Data.List.Perm.Subperm
import QueryTree.Proofs.Node.Erasure
import QueryTree.Proofs.Node.Labels
import QueryTree.Proofs.Pass.Remapping
import QueryTree.Proofs.Pass.Rules
import QueryTree.Proofs.Rows.Interpretation

/-! Comparisons of entities by their keys.

Keys are compared part by part when there are as many on either side and each name on the left is found on the right.
Where no name is given twice, that is so just in case the same names are given, and no part is left out. A difference is
the negation of an equality under every assignment, whatever the keys.
-/

set_option autoImplicit false

namespace QueryTree

namespace Binding

variable {α : Type} {left right : List (Binding α)}

def names (keys : List (Binding α)) : List String := keys.map (·.name)

theorem mem_names {keys : List (Binding α)} {name : String} : name ∈ names keys ↔ ∃ k ∈ keys, k.name = name :=
  List.mem_map

/-- As many names, each of them among the others, are the others. -/
theorem names_iff (distinct : (names left).Nodup) (length : left.length = right.length)
    (within : names left ⊆ names right) (name : String) : name ∈ names left ↔ name ∈ names right := by
  have counted : (names right).length ≤ (names left).length := by simp [names, length]
  exact ((List.subperm_of_subset distinct within).perm_of_length_le counted).mem_iff

theorem length_of_names (onLeft : (names left).Nodup) (onRight : (names right).Nodup)
    (same : ∀ name, name ∈ names left ↔ name ∈ names right) : left.length = right.length := by
  have counted := ((List.perm_ext_iff_of_nodup onLeft onRight).mpr same).length_eq
  simpa [names] using counted

end Binding

theorem Node.mem_joinAll {op : BinaryOp} {ns : List Node} {n m : Node} (joined : joinAll op ns = some n)
    (member : m ∈ ns) : m ∈ n.subtrees := by
  cases ns with
  | nil => cases member
  | cons first rest =>
    obtain rfl : rest.foldl (ofBinary op) first = n := Option.some.inj joined
    clear joined
    induction rest generalizing first m with
    | nil =>
      obtain rfl := List.mem_singleton.mp member
      exact self_mem_subtrees _
    | cons second rest ih =>
      -- The first two are joined before anything else, so they stand in the node that takes their place.
      have together := ih (ofBinary op first second) List.mem_cons_self
      have operand (c : Node) (child : c ∈ [first, second]) :
          c ∈ (rest.foldl (ofBinary op) (ofBinary op first second)).subtrees :=
        subtrees_trans together (mem_subtrees_of_child (s := .binary ..) child (self_mem_subtrees c))
      rcases List.mem_cons.mp member with rfl | later
      · exact operand m List.mem_cons_self
      · rcases List.mem_cons.mp later with rfl | later
        · exact operand m (by simp)
        · exact ih (ofBinary op first second) (List.mem_cons_of_mem _ later)

namespace Pass

open Binding (names mem_names)

/-! ### When keys are paired -/

variable {op : BinaryOp} {entity entity' : String} {l r : List (Binding Node)} {pairs : List (Node × Node)}

theorem pairKeys_isSome : (pairKeys? l r).isSome ↔ l.length = r.length ∧ l ≠ [] ∧ names l ⊆ names r := by
  have found (k : Binding Node) :
      ((r.find? (·.name == k.name)).map fun other => (k.expr, other.expr)).isSome ↔ k.name ∈ names r := by
    rw [Option.isSome_map, List.find?_isSome, mem_names]
    simp only [beq_iff_eq]
  unfold pairKeys?
  split
  · rename_i uneven
    have uneven : l.length ≠ r.length ∨ l = [] := by simpa using uneven
    constructor
    · intro none
      cases none
    · rintro ⟨length, filled, -⟩
      exact uneven.elim (absurd length) (absurd · filled)
  · rename_i even
    have even : l.length = r.length ∧ l ≠ [] := by simpa using even
    rw [mapM_isSome, ← and_assoc, and_iff_right even]
    exact (forall₂_congr fun k _ => found k).trans List.forall_mem_map.symm

/-- Without repeated names, keys are paired just in case they are of the same names. -/
theorem pairKeys_names (onLeft : (names l).Nodup) (onRight : (names r).Nodup) :
    (pairKeys? l r).isSome ↔ l ≠ [] ∧ ∀ name, name ∈ names l ↔ name ∈ names r := by
  rw [pairKeys_isSome]
  constructor
  · rintro ⟨length, filled, within⟩
    exact ⟨filled, Binding.names_iff onLeft length within⟩
  · rintro ⟨filled, same⟩
    exact ⟨Binding.length_of_names onLeft onRight same, filled, fun name => (same name).mp⟩

/-- Parts of one name are paired wherever they stand. -/
theorem pairKeys_pairs (onRight : (names r).Nodup) (paired : pairKeys? l r = some pairs) {k k' : Binding Node}
    (own : k ∈ l) (other : k' ∈ r) (named : k'.name = k.name) : (k.expr, k'.expr) ∈ pairs := by
  have found : r.find? (·.name == k.name) = some k' := (find_keyed onRight).mpr ⟨other, named⟩
  unfold pairKeys? at paired
  split at paired
  · cases paired
  · apply mem_of_mapM paired own
    rw [found, Option.map_some]

/-! ### What a comparison is expanded to -/

/-- Each part is compared with the part of its name, and no part is left out. -/
theorem compareEntities_parts {n : Node} (onLeft : (names l).Nodup) (onRight : (names r).Nodup)
    (compared : compareEntities? op (.object entity l) (.object entity' r) = some n) :
    (∀ k ∈ l, ∀ k' ∈ r, k'.name = k.name → .ofBinary op k.expr k'.expr ∈ n.subtrees) ∧
      ∀ k ∈ l ++ r, k.expr ∈ n.subtrees := by
  obtain ⟨pairs, paired, joined⟩ := Option.bind_eq_some_iff.mp compared
  obtain ⟨-, same⟩ := (pairKeys_names onLeft onRight).mp (Option.isSome_of_mem paired)
  have together (k : Binding Node) (own : k ∈ l) (k' : Binding Node) (other : k' ∈ r) (named : k'.name = k.name) :
      .ofBinary op k.expr k'.expr ∈ n.subtrees :=
    Node.mem_joinAll joined (List.mem_map_of_mem (pairKeys_pairs onRight paired own other named))
  have parts (k k' : Binding Node) (own : k ∈ l) (other : k' ∈ r) (named : k'.name = k.name) (c : Node)
      (child : c ∈ [k.expr, k'.expr]) : c ∈ n.subtrees :=
    Node.subtrees_trans (together k own k' other named)
      (Node.mem_subtrees_of_child (s := .binary ..) child (Node.self_mem_subtrees c))
  refine ⟨together, fun k either => ?_⟩
  rcases List.mem_append.mp either with own | other
  · obtain ⟨k', other, named⟩ := mem_names.mp ((same k.name).mp (List.mem_map_of_mem own))
    exact parts k k' own other named _ (by simp)
  · obtain ⟨k', own, named⟩ := mem_names.mp ((same k.name).mpr (List.mem_map_of_mem other))
    exact parts k' k own other named.symm _ (by simp)

end Pass

/-! ### Equality and difference -/

namespace Interpretation

variable {A : Type} (i : Interpretation A)

/-- Two tests, one the negation of the other. -/
structure Opposed (n m : Node) : Prop where
  test : i.sense n = .test (i.sense n).truth
  negated : i.sense m = .test fun a => ((i.sense n).truth a).map not

theorem Opposed.of {n m : Node} {truth : A → Option Bool} (test : i.sense n = .test truth)
    (negated : i.sense m = .test fun a => (truth a).map not) : i.Opposed n m := by
  constructor
  · exact Sense.test_truth test
  · rw [Sense.truth_eq test, negated]

theorem opposed_comparisons (l r : Node) : i.Opposed (.ofBinary .eq l r) (.ofBinary .notEq l r) :=
  .of i (i.sense_equal l r) (i.sense_notEqual l r)

theorem opposed_nullTests (n : Node) : i.Opposed (.ofUnary .isNull n) (.ofUnary .isNotNull n) :=
  .of i (i.sense_isNull n) (i.sense_isNotNull n)

theorem opposed_joinAll {α : Type} {items : List α} {test opposite : α → Node}
    (each : ∀ item ∈ items, i.Opposed (test item) (opposite item)) :
    Option.Rel i.Opposed (Node.conjunction (items.map test)) (Node.disjunction (items.map opposite)) := by
  have all := i.sense_joinAll (rfl : BinaryOp.and.isLogical = true) fun item member => (each item member).test
  have any := i.sense_joinAll (rfl : BinaryOp.or.isLogical = true) fun item member => (each item member).negated
  cases items with
  | nil => exact .none
  | cons item rest =>
    refine .some (.of i (all _ rfl) ?_)
    rw [any _ rfl]
    refine congrArg Sense.test (funext fun a => ?_)
    have negated := Truth.any_not ((item :: rest).map fun item => (i.sense (test item)).truth a)
    rw [List.map_map] at negated
    exact negated

end Interpretation

namespace Pass

variable {A : Type} (i : Interpretation A)

theorem compareEntities_opposed (left right : Node) :
    Option.Rel i.Opposed (compareEntities? .eq left right) (compareEntities? .notEq left right) := by
  have tested (keys : List (Binding Node)) (other : Node) :
      Option.Rel i.Opposed (if isNullLiteral other then testKeys? .eq keys else none)
        (if isNullLiteral other then testKeys? .notEq keys else none) := by
    split
    · exact i.opposed_joinAll fun k _ => i.opposed_nullTests k.expr
    · exact .none
  unfold compareEntities?
  split
  -- Whether two entities are compared by keys does not depend on the operator.
  · rename_i l _ r
    cases pairKeys? l r with
    | none => exact .none
    | some pairs => exact i.opposed_joinAll fun pair _ => i.opposed_comparisons pair.1 pair.2
  · exact tested _ _
  · exact tested _ _
  · exact .none

theorem expandComparison_opposed (left right : Node) (type type' : DataType) :
    i.Opposed (expandComparison (.binary .eq left right type)) (expandComparison (.binary .notEq left right type')) := by
  have either := compareEntities_opposed i left right
  simp only [expandComparison, decide_true, Bool.true_or, Bool.or_true, if_true]
  generalize compareEntities? .eq left right = equality at either
  generalize compareEntities? .notEq left right = difference at either
  cases either with
  | some opposed => exact opposed
  | none => exact .of i (i.sense_mk _) (i.sense_mk _)

/-- A difference is the negation of an equality, whether or not they are compared by keys. -/
theorem entities_negation (left right : Node) (type type' : DataType) : ∃ truth : A → Option Bool,
    i.sense (entities.transform (.binary .eq left right type)) = .test truth ∧
    i.sense (entities.transform (.binary .notEq left right type')) = .test fun a => (truth a).map not := by
  have opposed := expandComparison_opposed i (entities.transform left) (entities.transform right) type type'
  have rebuilt (op : BinaryOp) (type : DataType) : entities.transform (.binary op left right type) =
      expandComparison (.binary op (entities.transform left) (entities.transform right) type) :=
    Node.mapUp_mk expandComparison (.binary op left right type)
  rw [rebuilt, rebuilt]
  exact ⟨_, opposed.test, opposed.negated⟩

/-- Of two keys of one name on the left, either is compared with the same key, and what is named otherwise on the right
is in no comparison. -/
theorem repeated_key_compared :
    let part (label name : String) : Node := .column { label, name, type := .int64 }
    entities.transform (.equal
        (.object "Customer" [{ name := "Id", expr := part "a" "x" }, { name := "Id", expr := part "a" "y" }])
        (.object "Customer" [{ name := "Id", expr := part "b" "id" }, { name := "Code", expr := part "b" "code" }])) =
      .both (.equal (part "a" "x") (part "b" "id")) (.equal (part "a" "y") (part "b" "id")) := by
  decide +kernel

end Pass

end QueryTree
