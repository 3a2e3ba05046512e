import QueryTree.Proofs.Node.Visibility
import QueryTree.Proofs.Pass.PassWeights
import QueryTree.Proofs.Pass.Rounds

/-! Trees that come to rest.

Where references go in no circle, each label can be allowed what all that it stands for weighs together. Every round
then makes a tree lighter until one changes nothing, as one must at last; how many it takes depends on the tree.
-/

set_option autoImplicit false

namespace QueryTree

namespace Node

variable {n : Node} {ω : String → Nat}

/-- What each label is allowed when references go in no circle: as much as all that it stands for weighs. -/
noncomputable def allowance (grounded : WellFounded n.Behind) : String → Nat :=
  open Classical in
  grounded.fix fun label below =>
    ((n.behind label).map (weight fun inner => if inside : n.Behind inner label then below inner inside else 0)).sum

theorem allowance_eq (grounded : WellFounded n.Behind) (label : String) :
    allowance grounded label = ((n.behind label).map (weight (allowance grounded))).sum := by
  rw [allowance, WellFounded.fix_eq]
  refine congrArg List.sum (List.map_congr_left fun m stands => weight_congr fun inner inside => ?_)
  exact dif_pos ⟨m, stands, inside⟩

theorem weight_allowed (grounded : WellFounded n.Behind) {label : String} {m : Node} (stands : m ∈ n.behind label) :
    m.weight (allowance grounded) ≤ allowance grounded label := by
  rw [allowance_eq grounded label]
  exact List.le_sum_of_mem (List.mem_map_of_mem stands)

theorem allowance_bounded (grounded : WellFounded n.Behind) : n.Bounded (allowance grounded) := by
  intro m member
  have allowed {label : String} {c : Node} (stands : c ∈ m.shape.behind label) :
      c.weight (allowance grounded) ≤ allowance grounded label :=
    weight_allowed grounded (List.mem_flatMap.mpr ⟨m, member, stands⟩)
  obtain ⟨s⟩ := m
  cases s with
  | select q =>
    refine ⟨fun b column named => allowed ?_, fun source reads => (front_le source).trans (allowed ?_)⟩
    · simp only [shape_mk, Shape.behind, if_pos]
      exact List.mem_append_left _ (List.mem_map_of_mem (List.mem_filter.mpr ⟨column, by simp [named]⟩))
    · simp only [shape_mk, Shape.behind, if_pos]
      exact List.mem_append_right _ (Option.mem_toList.mpr reads)
  | groupAggregate label inGroup asQuery type => exact allowed (by simp [Shape.behind])
  | _ => trivial

end Node

namespace Pipeline

open Node

variable {n : Node} {ω : String → Nat}

theorem rounds_relieve (bounded : n.Bounded ω) (rounds : Nat) : Relieves True ω n (standard.round^[rounds] n) := by
  induction rounds with
  | zero => exact .refl bounded
  | succ rounds ih =>
    rw [Function.iterate_succ_apply']
    exact ih.trans (round_relieves ih.bounded)

theorem rounds_rest (bounded : n.Bounded ω) {rounds : Nat} (enough : n.weight ω ≤ rounds) :
    standard.round (standard.round^[rounds] n) = standard.round^[rounds] n := by
  induction rounds generalizing n with
  | zero => exact ((round_relieves bounded).weight.resolve_left (by omega)).2 trivial
  | succ rounds ih =>
    rw [Function.iterate_succ_apply]
    have relieves := round_relieves bounded
    rcases relieves.weight with less | ⟨-, same⟩
    · exact ih relieves.bounded (by omega)
    · have still := same trivial
      rw [still, Function.iterate_fixed still, still]

theorem round_fixed (bounded : n.Bounded ω) {rounds : Nat} (back : standard.round^[rounds + 1] n = n) :
    standard.round n = n := by
  have first := round_relieves bounded
  -- A round that changed anything would have lost weight, which no later round gives back.
  have rest := rounds_relieve first.bounded rounds
  rw [← Function.iterate_succ_apply, back] at rest
  exact (first.weight.resolve_left (Nat.not_lt.mpr rest.le)).2 trivial

/-- The optimizer has brought a tree to rest once a further round changes nothing. -/
theorem optimize_still (bounded : n.Bounded ω) (bound : Nat) :
    let p : Pipeline := { standard with maxRounds := bound }
    p.optimize (p.optimize n) = p.optimize n ↔ p.round (p.optimize n) = p.optimize n := by
  intro p
  obtain ⟨rounds, more⟩ : ∃ rounds, max p.maxRounds 1 = rounds + 1 := ⟨max p.maxRounds 1 - 1, by omega⟩
  have reached (n : Node) : p.optimize n = p.round^[rounds + 1] n := more ▸ p.optimize_eq n
  refine ⟨fun again => ?_, p.optimize_fixed⟩
  rw [reached n] at again ⊢
  exact round_fixed (rounds_relieve bounded _).bounded ((reached _).symm.trans again)

/-- Optimizing a tree once more changes nothing just in case a ninth round does not, and with as many rounds as the tree
takes to come to rest it never does. -/
theorem optimize_settles (distinct : n.labels.Nodup) (sight : n.inSight = true) :
    (standard.optimize (standard.optimize n) = standard.optimize n ↔ standard.round^[9] n = standard.round^[8] n) ∧
      ∃ rounds, ∀ bound, rounds ≤ bound →
        let p : Pipeline := { standard with maxRounds := bound }
        p.optimize (p.optimize n) = p.optimize n := by
  have bounded := allowance_bounded (behind_wellFounded sight distinct)
  generalize allowance _ = ω at bounded
  constructor
  · have eight : standard.optimize n = standard.round^[8] n := optimize_eq _ _
    rw [Function.iterate_succ_apply', ← eight]
    exact optimize_still bounded 8
  · refine ⟨n.weight ω, fun bound enough => (optimize_still bounded bound).mpr ?_⟩
    rw [optimize_eq]
    exact rounds_rest bounded (enough.trans (Nat.le_max_left _ _))

/-- Totals by status: the aggregate refers to the group that it is computed in, and so does the query that it may be
written as. -/
theorem optimize_settles_totals :
    let column (label name : String) : Node := .column ⟨label, name, .int32⟩
    let total (label : String) : Node := .aggregate .sum (some (column label "amount")) false .int32
    let totals : Select Node :=
      { label := "s9", columns := [⟨"total", total "t9"⟩], source := some (.table "orders" "t9" .void)
        filter := some (.equal (column "t9" "status") (column "g" "status")) }
    let group : Select Node :=
      { label := "g", columns := [⟨"status", column "t0" "status"⟩], source := some (.table "orders" "t0" .void)
        groupBy := [column "t0" "status"] }
    let lifted : Node := .groupAggregate "g" (total "t0") (.subquery .scalar none (.select totals) .int32) .int32
    let n : Node := .select
      { label := "s0", columns := [⟨"status", column "g" "status"⟩, ⟨"total", lifted⟩], source := some (.select group) }
    n.labels.Nodup ∧ n.inSight = true ∧
      (standard.optimize (standard.optimize n) = standard.optimize n ↔ standard.round^[9] n = standard.round^[8] n) ∧
      ∃ rounds, ∀ bound, rounds ≤ bound →
        let p : Pipeline := { standard with maxRounds := bound }
        p.optimize (p.optimize n) = p.optimize n := by
  intro column total totals group lifted n
  have distinct : n.labels.Nodup := by decide +kernel
  have sight : n.inSight = true := by decide +kernel
  exact ⟨distinct, sight, optimize_settles distinct sight⟩

end Pipeline

end QueryTree
