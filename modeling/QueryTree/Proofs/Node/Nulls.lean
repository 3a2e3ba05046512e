import QueryTree.Pass.Entities
import QueryTree.Proofs.Node.Parts

/-! Null literals in comparisons.

A comparison with a null literal is written as a test for null, unlike one with an expression that comes to null. A null
literal of boolean type is in a comparison as soon as it is compared with true.
-/

set_option autoImplicit false

namespace QueryTree

open Pass (isNullLiteral)

/-- Written as a test for null. -/
def Shape.comparesNull : Shape Node → Bool
  | .binary op left right _ => (op = .eq || op = .notEq) && (isNullLiteral left || isNullLiteral right)
  | _ => false

def Shape.isNullBit {α : Type} : Shape α → Bool
  | .constant value type => value.isNull && type.isBoolean
  | _ => false

namespace Node

/-- Something in the tree is a comparison with a null literal. -/
def comparesNull (n : Node) : Bool := n.subtrees.any (·.shape.comparesNull)

/-- No comparison with a null literal, and none to come from a bit. -/
def NullSafe (n : Node) : Prop := ∀ s, .mk s ∈ n.subtrees → s.comparesNull = false ∧ s.isNullBit = false

theorem nullSafe_mk {s : Shape Node} : (Node.mk s).NullSafe ↔
    (s.comparesNull = false ∧ s.isNullBit = false) ∧ ∀ c ∈ s.children, c.NullSafe := by
  simp only [NullSafe, subtrees_mk, List.mem_cons, List.mem_flatMap]
  constructor
  · intro safe
    exact ⟨safe s (.inl rfl), fun c child t member => safe t (.inr ⟨c, child, member⟩)⟩
  · rintro ⟨here, below⟩ t (same | ⟨c, child, member⟩)
    · cases same
      exact here
    · exact below c child t member

theorem NullSafe.comparesNull {n : Node} (safe : n.NullSafe) : n.comparesNull = false := by
  refine List.any_eq_false.mpr fun m member => ?_
  obtain ⟨s⟩ := m
  simp [(safe s member).1]

theorem nullSafe_column (c : Column) : (Node.column c).NullSafe :=
  nullSafe_mk.mpr ⟨⟨rfl, rfl⟩, fun _ member => absurd member List.not_mem_nil⟩

theorem nullSafe_literal (value : Value) : (Node.literal value).NullSafe := by
  refine nullSafe_mk.mpr ⟨⟨rfl, ?_⟩, fun _ member => absurd member List.not_mem_nil⟩
  cases value <;> rfl

theorem NullSafe.map {s : Shape Node} {f : Node → Node} (safe : (Node.mk s).NullSafe)
    (null : ∀ c ∈ s.children, isNullLiteral (f c) = isNullLiteral c) (each : ∀ c ∈ s.children, (f c).NullSafe) :
    (Node.mk (s.map f)).NullSafe := by
  obtain ⟨⟨compares, bit⟩, -⟩ := nullSafe_mk.mp safe
  refine nullSafe_mk.mpr ⟨⟨?_, ?_⟩, ?_⟩
  · cases s with
    | binary op left right type =>
      simp only [Shape.map, Shape.comparesNull, null left (by simp [Shape.children]), null right (by simp [Shape.children])]
      exact compares
    | _ => rfl
  · cases s with
    | constant value type => exact bit
    | _ => rfl
  · rw [Shape.children_map]
    exact List.forall_mem_map.mpr each

theorem NullSafe.mapUp {rule : Node → Node} (null : ∀ n, isNullLiteral (rule n) = isNullLiteral n)
    (each : ∀ n : Node, n.NullSafe → (rule n).NullSafe) {n : Node} (safe : n.NullSafe) :
    (n.mapUp rule).NullSafe ∧ isNullLiteral (n.mapUp rule) = isNullLiteral n := by
  induction n using Node.inductNode with
  | step s ih =>
    have below := (nullSafe_mk.mp safe).2
    rw [mapUp_mk]
    constructor
    · apply each
      exact safe.map (fun c child => (ih c child (below c child)).2) fun c child => (ih c child (below c child)).1
    · rw [null]
      cases s <;> rfl

end Node

end QueryTree
