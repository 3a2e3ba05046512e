import Mathlib.Data.Nat.Basic
import Mathlib.Order.Basic
import QueryTree.Proofs.Node.Pairing
import QueryTree.Proofs.Pass.Remapping

/-! Following references to their end.

What a reference stands for may refer to columns that stand for something again. `Remaps` says what comes of that with no
bound on the steps. Where a rank falls from every reference to those in its meaning, a chain of references meets no
declared column twice, and no mapping twice between two of them, so that the steps of `follow` suffice.
-/

set_option autoImplicit false

namespace QueryTree.Mapping

variable {mappings other : List Mapping} {c : Column} {n result : Node}

/-- What becomes of a tree when references are followed for as long as they stand for something. -/
inductive Remaps (mappings : List Mapping) : Node → Node → Prop where
  | kept {c : Column} (none : ∀ m ∈ mappings, m.resolve? c = none) : Remaps mappings (.column c) (.column c)
  | found {c : Column} {meaning result : Node} (found : mappings.findSome? (·.resolve? c) = some meaning)
      (rest : Remaps mappings meaning result) : Remaps mappings (.column c) result
  | layer {s : Shape (Node × Node)} (notColumn : s.kind ≠ .column) (below : ∀ p ∈ s.children, Remaps mappings p.1 p.2) :
      Remaps mappings (.mk (s.map Prod.fst)) (.mk (s.map Prod.snd))

/-! ### What a tree becomes -/

namespace Remaps

theorem enough_forall {α : Type} {P : α → Nat → Prop} {l : List α}
    (each : ∀ a ∈ l, ∃ steps, ∀ depth, steps ≤ depth → P a depth) :
    ∃ steps, ∀ a ∈ l, ∀ depth, steps ≤ depth → P a depth := by
  induction l with
  | nil => exact ⟨0, fun _ member => absurd member List.not_mem_nil⟩
  | cons a rest ih =>
    obtain ⟨first, here⟩ := each a List.mem_cons_self
    obtain ⟨later, there⟩ := ih fun b member => each b (List.mem_cons_of_mem a member)
    refine ⟨max first later, fun b member depth enough => ?_⟩
    rcases List.mem_cons.mp member with rfl | member
    · exact here depth ((le_max_left ..).trans enough)
    · exact there b member depth ((le_max_right ..).trans enough)

theorem follow_eventually (remaps : Remaps mappings n result) :
    ∃ steps, ∀ depth, steps ≤ depth → follow mappings depth n = result := by
  induction remaps with
  | kept none => exact ⟨0, fun depth _ => follow_kept (List.findSome?_eq_none_iff.mpr none) depth⟩
  | found found _ ih =>
    obtain ⟨steps, settles⟩ := ih
    refine ⟨steps + 1, fun depth enough => ?_⟩
    obtain ⟨before, rfl⟩ := Nat.exists_eq_add_of_le' (Nat.le_of_add_left_le enough)
    rw [follow_found found]
    exact settles before (Nat.le_of_add_le_add_right enough)
  | @layer s notColumn _ ih =>
    obtain ⟨steps, settles⟩ := enough_forall ih
    refine ⟨steps, fun depth enough => ?_⟩
    rw [follow_mk _ _ (by rwa [Shape.kind_map]), Shape.map_map]
    exact congrArg Node.mk (Shape.map_congr fun p child => settles p child depth enough)

theorem unique {second : Node} (first : Remaps mappings n result) (again : Remaps mappings n second) :
    result = second := by
  obtain ⟨steps, settles⟩ := first.follow_eventually
  obtain ⟨more, settlesAgain⟩ := again.follow_eventually
  rw [← settles (max steps more) (le_max_left ..), ← settlesAgain (max steps more) (le_max_right ..)]

theorem resolved (remaps : Remaps mappings n result) (left : .column c ∈ result.subtrees) :
    ∀ m ∈ mappings, m.resolve? c = none := by
  induction remaps with
  | kept none =>
    rw [Node.subtrees_mk] at left
    cases List.mem_singleton.mp left
    exact none
  | found _ _ ih => exact ih left
  | @layer s notColumn _ ih =>
    rw [Node.subtrees_mk, Shape.children_map, List.flatMap_map] at left
    rcases List.mem_cons.mp left with here | below
    · refine absurd ?_ notColumn
      rw [← Shape.kind_map Prod.snd s, ← Node.mk.inj here]
      rfl
    · obtain ⟨p, child, inside⟩ := List.mem_flatMap.mp below
      exact ih p child inside

theorem ofColumns {depth : Nat} (each : ∀ c, .column c ∈ n.subtrees →
    Remaps mappings (.column c) (follow mappings depth (.column c))) : Remaps mappings n (follow mappings depth n) := by
  induction n using Node.inductNode with
  | step s ih =>
    by_cases column : s.kind = .column
    · cases s with
      | column c => exact each c (Node.self_mem_subtrees _)
      | _ => cases column
    · have both : Remaps mappings _ _ := layer (s := s.map fun a => (a, follow mappings depth a))
        (by rwa [Shape.kind_map]) (by
          rw [Shape.children_map]
          refine List.forall_mem_map.mpr fun a child => ih a child fun c inside => ?_
          exact each c (Node.mem_subtrees_of_child child inside))
      rw [Shape.map_map, Shape.map_map, Shape.map_id] at both
      rwa [follow_mk _ _ column]

end Remaps

/-! ### Steps ahead -/

/-- The rank of a reference falls to those in what it stands for. References are ranked by label and name. -/
def Descends {α : Type*} [LT α] (mappings : List Mapping) (rank : String × String → α) : Prop :=
  ∀ m ∈ mappings, ∀ c meaning, m.resolve? c = some meaning →
    ∀ d, .column d ∈ meaning.subtrees → rank (d.label, d.name) < rank (c.label, c.name)

theorem descends_ofLabels {α : Type*} [LT α] {rank : String → α}
    (columns : ∀ m ∈ mappings, ∀ b ∈ m.columns, ∀ d, .column d ∈ b.expr.subtrees → rank d.label < rank m.label)
    (sources : ∀ m ∈ mappings, ∀ owner ∈ m.passthrough, rank owner < rank m.label) :
    Descends mappings fun key => rank key.1 := by
  intro m member c meaning resolved d inside
  obtain ⟨label, ⟨b, column, -, rfl⟩ | ⟨owner, passesOn, rfl⟩⟩ := resolve_some resolved
  · rw [← label]
    exact columns m member b column d inside
  · rw [Node.subtrees_mk] at inside
    cases List.mem_singleton.mp inside
    rw [← label]
    exact sources m member owner passesOn

section Rank

open scoped Classical

variable {α : Type*} [Preorder α] {rank : String × String → α} {keys : List (String × String)} {k later : String × String}

/-- How many of the keys may still be met from `k` on. -/
noncomputable def ahead (rank : String × String → α) (keys : List (String × String)) (k : String × String) : Nat :=
  keys.countP fun p => p = k ∨ rank p < rank k

theorem ahead_within : ahead rank keys k ≤ keys.length := List.countP_le_length

theorem ahead_le (falls : rank later < rank k) : ahead rank keys later ≤ ahead rank keys k := by
  refine List.countP_mono_left fun p _ met => ?_
  rw [decide_eq_true_eq] at met ⊢
  rcases met with rfl | lower
  · exact .inr falls
  · exact .inr (lower.trans falls)

theorem ahead_lt (falls : rank later < rank k) (member : k ∈ keys) : ahead rank keys later < ahead rank keys k := by
  obtain ⟨before, after, rfl⟩ := List.append_of_mem member
  -- Of the keys counted from `k`, only `k` itself is not counted from what comes later.
  have passed : ¬ (k = later ∨ rank k < rank later) := by
    rintro (rfl | lower)
    · exact lt_irrefl _ falls
    · exact lt_asymm lower falls
  have first : ahead rank before later ≤ ahead rank before k := ahead_le falls
  have last : ahead rank after later ≤ ahead rank after k := ahead_le falls
  unfold ahead at first last ⊢
  rw [List.countP_append, List.countP_append, List.countP_cons_of_neg (by simpa using passed),
    List.countP_cons_of_pos (by simp)]
  omega

def declared (mappings : List Mapping) : List (String × String) :=
  mappings.flatMap fun m => m.columns.map fun b => (m.label, b.name)

/-- The keys a name has in the selects of the mappings. -/
def passed (mappings : List Mapping) (name : String) : List (String × String) :=
  mappings.map fun m => (m.label, name)

/-- A bound on the references that are still to be followed from a reference: all mappings may pass on the name of a
declared column before the next one is met. -/
noncomputable def stepsAhead (rank : String × String → α) (mappings : List Mapping) (c : Column) : Nat :=
  ahead rank (declared mappings) (c.label, c.name) * (mappings.length + 1) +
    ahead rank (passed mappings c.name) (c.label, c.name)

theorem stepsAhead_lt (descends : Descends mappings rank) {m : Mapping} (member : m ∈ mappings) {meaning : Node}
    (resolved : m.resolve? c = some meaning) {d : Column} (inside : .column d ∈ meaning.subtrees) :
    stepsAhead rank mappings d < stepsAhead rank mappings c := by
  have falls := descends m member c meaning resolved d inside
  obtain ⟨label, ⟨b, column, name, -⟩ | ⟨owner, -, rfl⟩⟩ := resolve_some resolved
  · -- A declared column is met, of which there is one less ahead.
    have met : (c.label, c.name) ∈ declared mappings :=
      List.mem_flatMap.mpr ⟨m, member, List.mem_map.mpr ⟨b, column, by rw [label, name]⟩⟩
    have fewer := ahead_lt falls met
    have within : ahead rank (passed mappings d.name) (d.label, d.name) ≤ mappings.length :=
      ahead_within.trans_eq (List.length_map _)
    calc stepsAhead rank mappings d
        < ahead rank (declared mappings) (d.label, d.name) * (mappings.length + 1) + (mappings.length + 1) :=
          Nat.add_lt_add_left (Nat.lt_succ_of_le within) _
      _ = (ahead rank (declared mappings) (d.label, d.name) + 1) * (mappings.length + 1) := (Nat.succ_mul ..).symm
      _ ≤ ahead rank (declared mappings) (c.label, c.name) * (mappings.length + 1) := Nat.mul_le_mul_right _ fewer
      _ ≤ stepsAhead rank mappings c := Nat.le_add_right ..
  · -- The name is passed on, and there is one mapping less to pass it on.
    rw [Node.subtrees_mk] at inside
    cases List.mem_singleton.mp inside
    have met : (c.label, c.name) ∈ passed mappings c.name := List.mem_map.mpr ⟨m, member, by rw [label]⟩
    exact Nat.add_lt_add_of_le_of_lt (Nat.mul_le_mul_right _ (ahead_le falls)) (ahead_lt falls met)

theorem stepsAhead_pos {m : Mapping} (member : m ∈ mappings) {meaning : Node} (resolved : m.resolve? c = some meaning) :
    0 < stepsAhead rank mappings c := by
  refine Nat.add_pos_right _ (List.countP_pos_iff.mpr ⟨(m.label, c.name), List.mem_map.mpr ⟨m, member, rfl⟩, ?_⟩)
  rw [decide_eq_true_eq, (resolve_some resolved).1]
  exact .inl rfl

theorem stepsAhead_within : stepsAhead rank mappings c < maxDepth mappings := by
  have columns : (declared mappings).length = (mappings.flatMap (·.columns)).length := by
    simp [declared, List.length_flatMap]
  have declaredAhead : ahead rank (declared mappings) (c.label, c.name) ≤ (mappings.flatMap (·.columns)).length :=
    ahead_within.trans_eq columns
  have passedAhead : ahead rank (passed mappings c.name) (c.label, c.name) ≤ mappings.length :=
    ahead_within.trans_eq (List.length_map _)
  calc stepsAhead rank mappings c
      ≤ (mappings.flatMap (·.columns)).length * (mappings.length + 1) + mappings.length :=
        Nat.add_le_add (Nat.mul_le_mul_right _ declaredAhead) passedAhead
    _ < (mappings.flatMap (·.columns)).length * (mappings.length + 1) + (mappings.length + 1) := by omega
    _ = maxDepth mappings := (Nat.succ_mul ..).symm

/-- With as many steps as are ahead, a reference is followed to its end. -/
theorem remaps_column (descends : Descends mappings rank) : ∀ (depth : Nat) (c : Column),
    stepsAhead rank mappings c ≤ depth → Remaps mappings (.column c) (follow mappings depth (.column c)) := by
  -- By the steps ahead, which fall with each that is taken.
  intro depth
  induction depth with
  | zero =>
    intro c enough
    refine .kept fun m member => Option.eq_none_iff_forall_ne_some.mpr fun meaning resolved => ?_
    exact absurd (stepsAhead_pos member resolved) (Nat.not_lt.mpr enough)
  | succ depth ih =>
    intro c enough
    cases found : mappings.findSome? (·.resolve? c) with
    | none =>
      rw [follow_kept found]
      exact .kept (List.findSome?_eq_none_iff.mp found)
    | some meaning =>
      obtain ⟨m, member, resolved⟩ := List.exists_of_findSome?_eq_some found
      rw [follow_found found]
      refine .found found (.ofColumns fun d inside => ih d ?_)
      exact Nat.le_of_lt_succ ((stepsAhead_lt descends member resolved inside).trans_le enough)

theorem remaps_remap (descends : Descends mappings rank) (n : Node) : Remaps mappings n (n.remap mappings) :=
  .ofColumns fun c _ => remaps_column descends _ c stepsAhead_within.le

end Rank

/-! ### The order of the mappings -/

/-- Where labels are distinct, the mapping that resolves a reference is the only one that does. -/
theorem findSome_distinct (labels : (mappings.map (·.label)).Nodup) {meaning : Node} :
    mappings.findSome? (·.resolve? c) = some meaning ↔ ∃ m ∈ mappings, m.resolve? c = some meaning := by
  constructor
  · exact List.exists_of_findSome?_eq_some
  · rintro ⟨m, member, resolved⟩
    refine findSome_agree (fun a inList => ?_) (.inr ⟨m, member, resolved⟩)
    cases answer : a.resolve? c with
    | none => exact .inl rfl
    | some e =>
      have same : a.label = m.label := (resolve_some answer).1.trans (resolve_some resolved).1.symm
      rw [List.inj_on_of_nodup_map labels inList member same, resolved] at answer
      exact .inr answer.symm

theorem findSome_perm (labels : (mappings.map (·.label)).Nodup) (perm : other.Perm mappings) :
    other.findSome? (·.resolve? c) = mappings.findSome? (·.resolve? c) := by
  ext meaning
  rw [findSome_distinct labels, findSome_distinct ((perm.map _).nodup_iff.mpr labels)]
  simp only [perm.mem_iff]

theorem follow_congr (same : ∀ c, other.findSome? (·.resolve? c) = mappings.findSome? (·.resolve? c)) (depth : Nat) :
    follow other depth = follow mappings depth := by
  induction depth with
  | zero => rfl
  | succ depth ih =>
    funext n
    simp only [follow, same, ih]

theorem maxDepth_perm (perm : other.Perm mappings) : maxDepth other = maxDepth mappings := by
  unfold maxDepth
  rw [perm.length_eq, (perm.flatMap_right _).length_eq]

/-- References are followed to the one end that they have, where no reference stands for anything, whatever the order of
the mappings is. -/
theorem remap_settles {α : Type*} [Preorder α] {rank : String × String → α} (labels : (mappings.map (·.label)).Nodup)
    (descends : Descends mappings rank) (n : Node) :
    (∀ result, Remaps mappings n result ↔ result = n.remap mappings) ∧
      (∀ c, .column c ∈ (n.remap mappings).subtrees → ∀ m ∈ mappings, m.resolve? c = none) ∧
      ∀ other, other.Perm mappings → n.remap other = n.remap mappings := by
  have remaps := remaps_remap descends n
  refine ⟨fun result => ⟨fun again => again.unique remaps, ?_⟩, fun c left => remaps.resolved left, fun other perm => ?_⟩
  · rintro rfl
    exact remaps
  · unfold Node.remap
    rw [maxDepth_perm perm, follow_congr fun c => findSome_perm labels perm]

/-- A declared column, a select that passes all columns on and one that passes on all but its own, in a row. -/
theorem remap_settles_chain :
    let column (label name : String) : Node := .column ⟨label, name, .int32⟩
    let sum (label name : String) : Node := .binary .add (column "t0" "net") (column label name) .int32
    let mappings : List Mapping := [⟨"s1", [⟨"total", sum "s2" "tax"⟩], none⟩, ⟨"s2", [], some "s3"⟩,
      ⟨"s3", [⟨"tax", column "t0" "vat"⟩], some "t0"⟩]
    let rank (label : String) : Nat := if label = "s1" then 3 else if label = "s2" then 2 else if label = "s3" then 1 else 0
    (mappings.map (·.label)).Nodup ∧ (Descends mappings fun key => rank key.1) ∧
      (∀ result, Remaps mappings (column "s1" "total") result ↔ result = sum "t0" "vat") ∧
      (∀ c, .column c ∈ (sum "t0" "vat").subtrees → ∀ m ∈ mappings, m.resolve? c = none) ∧
      (column "s1" "total").remap mappings.reverse = sum "t0" "vat" := by
  intro column sum mappings rank
  have labels : (mappings.map (·.label)).Nodup := by decide +kernel
  have descends : Descends mappings fun key => rank key.1 := by
    apply descends_ofLabels
    · simp [mappings, sum, column, rank, Node.subtrees_mk, Shape.children]
    · simp [mappings, rank]
  have followed : (column "s1" "total").remap mappings = sum "t0" "vat" := Node.eq_of_alike (by decide +kernel)
  obtain ⟨ends, resolved, order⟩ := remap_settles labels descends (column "s1" "total")
  rw [followed] at ends resolved order
  exact ⟨labels, descends, ends, resolved, order _ (List.reverse_perm mappings)⟩

end QueryTree.Mapping
