import QueryTree.Proofs.Amend.Positions
import QueryTree.Proofs.Amend.RowNumbers
import QueryTree.Proofs.Pass.Nulls

/-! Comparisons with a null literal in the dialects at hand.

Amenders add comparisons of row numbers and of bits. They compare no null where there is no null bit. The one null they
add orders a window by nothing.
-/

set_option autoImplicit false

namespace QueryTree

open Pass (isNullLiteral)

namespace Amend

/-! ### Row numbers -/

theorem select_safe {q : Select Node} : (Node.select q).NullSafe ↔ ∀ c ∈ q.children, c.NullSafe :=
  Node.nullSafe_mk.trans (and_iff_right ⟨rfl, rfl⟩)

theorem nullSafe_numbering : Numbering Node.NullSafe where
  column := Node.nullSafe_column
  literal := Node.nullSafe_literal
  operation notEqual notOther first second := Node.nullSafe_mk.mpr
    ⟨⟨by simp [Shape.comparesNull, notEqual, notOther], rfl⟩, by simpa [Shape.children] using ⟨first, second⟩⟩
  rowNumber := Node.nullSafe_mk.mpr ⟨⟨rfl, rfl⟩, fun _ member => absurd member List.not_mem_nil⟩
  window source order :=
    Node.nullSafe_mk.mpr ⟨⟨rfl, rfl⟩, List.forall_mem_cons.mpr ⟨source, List.forall_mem_map.mpr order⟩⟩
  scalar query := Node.nullSafe_mk.mpr ⟨⟨rfl, rfl⟩, by simpa [Shape.children] using query⟩
  select _ parts := select_safe.mpr parts

theorem rowNumbers_safe {n : Node} (safe : n.NullSafe) : (rowNumbers.amend n).NullSafe := by
  simp only [rowNumbers]
  refine (Node.NullSafe.mapUp (fun n => ?_) (fun n safe => ?_) safe).1
  · split
    · split <;> rfl
    · rfl
  · split
    · rename_i s
      have parts := select_safe.mp safe
      split
      · rename_i skip paged
        exact nullSafe_numbering.ofPaginate parts ((Select.forall_children.mp parts).2.2.2.2.2.1 skip paged)
      · exact safe
    · exact safe

/-! ### Bits -/

theorem isNullLiteral_retyped {before after : Shape Node} :
    isNullLiteral (retyped before after) = isNullLiteral (.mk after) := by
  unfold retyped
  split
  · split <;> rfl
  · rfl

theorem test_notNull {n : Node} (test : n.isPredicate = true) : isNullLiteral n = false := by
  obtain ⟨s⟩ := n
  cases s <;> first | rfl | cases test

theorem isNullLiteral_value (n : Node) : isNullLiteral (normalizeBits n .value) = isNullLiteral n := by
  obtain ⟨s⟩ := n
  have same : isNullLiteral (retyped s (positioned (s.map normalizeBits))) = isNullLiteral (.mk s) := by
    rw [isNullLiteral_retyped]
    cases s <;> rfl
  rw [normalizeBits_mk, ← same]
  unfold atPosition
  dsimp only
  split
  · rename_i test
    exact (test_notNull test).symm
  · rfl

theorem retyped_safe {before after : Shape Node} : (retyped before after).NullSafe ↔ (Node.mk after).NullSafe := by
  unfold retyped
  split
  · split
    · rfl
    · simp only [Node.negation, Node.ofUnary, Node.nullSafe_mk]
      rfl
  · rfl

theorem bit_notNull {n : Node} (safe : n.NullSafe) (bit : isBit n = true) : isNullLiteral n = false := by
  obtain ⟨s⟩ := n
  cases s with
  | constant value type =>
    have noBit : (value.isNull && type.isBoolean) = false := (Node.nullSafe_mk.mp safe).1.2
    have typed : type.isBoolean = true := (Bool.and_eq_true_iff.mp bit).1
    have given : value.isNull = false := by simpa [typed] using noBit
    exact given
  | _ => rfl

theorem atPosition_safe {n : Node} (safe : n.NullSafe) (position : Position) : (atPosition position n).NullSafe := by
  have literal (b : Bool) := Node.nullSafe_literal (.bool b)
  unfold atPosition
  split
  · split
    · rename_i bit
      -- A bit that is null would be a null that is compared.
      have given := bit_notNull safe bit
      refine Node.nullSafe_mk.mpr ⟨⟨?_, rfl⟩, by simpa [Shape.children] using ⟨safe, literal true⟩⟩
      have constant : isNullLiteral (.literal (.bool true)) = false := rfl
      simp [Shape.comparesNull, given, constant]
    · exact safe
  · split
    · refine Node.nullSafe_mk.mpr ⟨⟨rfl, rfl⟩, ?_⟩
      simpa [Shape.children, Branch.children] using ⟨safe, literal true, literal false⟩
    · exact safe

theorem normalizeBits_safe (n : Node) : n.NullSafe → ∀ position, (normalizeBits n position).NullSafe := by
  induction n using Node.inductNode with
  | step s ih =>
    intro safe position
    obtain ⟨⟨compares, bit⟩, below⟩ := Node.nullSafe_mk.mp safe
    rw [normalizeBits_mk]
    apply atPosition_safe
    rw [retyped_safe]
    refine Node.nullSafe_mk.mpr ⟨⟨?_, ?_⟩, fun c child => ?_⟩
    · cases s with
      | binary op left right type =>
        -- A connective becomes a test for null of neither side, and any other operator keeps its operands as values.
        cases logical : op.isLogical
        · simp only [Shape.map, positioned, logical, Bool.false_eq_true, if_false, Shape.comparesNull, isNullLiteral_value]
          exact compares
        · have other : (op = .eq || op = .notEq) = false := by cases op <;> simp_all [BinaryOp.isLogical]
          simp only [Shape.map, positioned, Shape.comparesNull, other, Bool.false_and]
      | _ => rfl
    · cases s with
      | constant value type => exact bit
      | _ => rfl
    · rw [Shape.mem_children_iff, positioned_tests, positioned_values, Shape.tests_map, Shape.values_map] at child
      simp only [List.map_map, List.mem_map] at child
      rcases child with ⟨c, test, rfl⟩ | ⟨c, value, rfl⟩
      · have inside := Shape.mem_children_iff.mpr (.inl test)
        exact ih c inside (below c inside) .predicate
      · have inside := Shape.mem_children_iff.mpr (.inr value)
        exact ih c inside (below c inside) .value

end Amend

/-! ### The dialects -/

theorem Node.nullSafe_ofGiven {n : Node} (given : n.isGiven = true) : n.NullSafe := by
  induction n using Node.inductNode with
  | step s ih =>
    obtain ⟨layer, below⟩ := isGiven_iff.mp given
    refine nullSafe_mk.mpr ⟨⟨?_, ?_⟩, fun c child => ih c child (below c child)⟩
    · have operand {c : Node} (given : c.isGiven = true) : isNullLiteral c = false := by
        obtain ⟨s⟩ := c
        cases s with
        | constant value type => exact Value.isNull_ofGiven (isGiven_constant.mp given)
        | _ => rfl
      cases s with
      | binary op left right type =>
        simp [Shape.comparesNull, operand (below left (by simp [Shape.children])),
          operand (below right (by simp [Shape.children]))]
      | _ => rfl
    · cases s with
      | constant value type =>
        have known : value.isNull = false := Value.isNull_ofGiven layer
        simp [Shape.isNullBit, known]
      | _ => rfl

namespace Shipped

theorem amend_safe (d : Shipped) {n : Node} (safe : n.NullSafe) : (d.dialect.amend n).NullSafe := by
  cases d with
  | postgres => exact safe
  | sqlite => exact (Amend.enumDefinitions_standsFor n).safe safe
  | sqlServer paging =>
    apply (Dialect.sqlServer_standsFor paging n).safe
    apply Amend.normalizeBits_safe
    split
    · exact Amend.rowNumbers_safe safe
    · exact safe

/-- Where nothing comes to null by itself, no comparison in a command comes to be written as a test for null. -/
theorem comparesNull_ofGiven (d : Shipped) {n : Node} (given : n.isGiven = true) :
    (d.dialect.amend (Pipeline.standard.optimize n)).comparesNull = false :=
  (d.amend_safe (Node.nullSafe_ofGiven (Pipeline.optimize_given given))).comparesNull

end Shipped

/-- A comparison with the first value of two nulls, which is never true, becomes a test for null, which may be. -/
theorem Pipeline.null_compared :
    let x : Node := .column ⟨"t0", "x", .int32⟩
    let filter : Node := .equal x (.call .coalesce [.null .int32, .null .int32] .int32)
    let n : Node := .select
      { label := "s", columns := [⟨"x", x⟩], source := some (.table "T" "t0" .void), filter := some filter }
    n.comparesNull = false ∧ (standard.optimize n).comparesNull = true := by
  intro x filter n
  exact ⟨by decide +kernel, by decide +kernel⟩

/-- A null bit is compared with true. -/
theorem Amend.null_compared (paging : Dialect.Paging) :
    let n : Node := .select { label := "s", source := some (.table "T" "t0" .void), filter := some (.null .boolean) }
    n.comparesNull = false ∧ ((Dialect.sqlServer paging).amend n).comparesNull = true := by
  intro n
  cases paging with
  | rowNumber => exact ⟨by decide +kernel, by decide +kernel⟩
  | offsetFetch => exact ⟨by decide +kernel, by decide +kernel⟩

end QueryTree
