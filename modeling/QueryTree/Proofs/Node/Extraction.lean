import QueryTree.Node.Literals
import QueryTree.Proofs.Node.Traversal

/-! Taking the literals out of a layer.

A literal that is not null becomes a placeholder, a layer that is part of the command text stays as it is, and
from any other layer the literals of the children are taken in turn. The list of values only grows, so a
placeholder means the same value from when it is written to the end.
-/

set_option autoImplicit false

namespace QueryTree

@[simp] theorem Shape.isVerbatim_map {α β : Type} (f : α → β) (s : Shape α) : (s.map f).isVerbatim = s.isVerbatim := by
  cases s <;> rfl

theorem Shape.single_of_verbatim {α : Type} {s : Shape α} (verbatim : s.isVerbatim = true) : s.kind ≠ .statements := by
  cases s with
  | statements => cases verbatim
  | _ => exact nofun

namespace Node

theorem extract_null {value : Value} (type : DataType) (values : List Value) (null : value.isNull = true) :
    (Node.constant value type).extract values = (.constant value type, values) := by
  unfold extract
  rw [para_mk]
  simp only [Shape.map, null, if_true]
  rfl

theorem extract_literal {value : Value} (type : DataType) (values : List Value) (notNull : value.isNull = false) :
    (Node.constant value type).extract values = (.placeholder values.length type, values ++ [value]) := by
  unfold extract
  rw [para_mk]
  simp only [Shape.map, notNull, Bool.false_eq_true, if_false]

theorem extract_verbatim {s : Shape Node} (values : List Value) (verbatim : s.isVerbatim = true) :
    (Node.mk s).extract values = (.mk s, values) := by
  have layer : (Node.mk s).extract = pure (.mk ((s.map fun c => (c, extract c)).map Prod.fst)) := by
    unfold extract
    rw [para_mk]
    cases s with
    | setCommand | createTable | alterTable | columnDefinition | constraint | constraintAction | createIndex => rfl
    | _ => exact absurd verbatim (by simp [Shape.isVerbatim])
  rw [layer, Shape.map_map, Shape.map_id]
  rfl

theorem extract_mk {s : Shape Node} (notConstant : s.kind ≠ .constant) (spelled : s.isVerbatim = false) :
    (Node.mk s).extract = Node.mk <$> s.traverse extract := by
  have layer : (Node.mk s).extract = Node.mk <$> (s.map fun c => (c, extract c)).traverse Prod.snd := by
    unfold extract
    rw [para_mk]
    cases s with
    | constant => exact absurd rfl notConstant
    | setCommand | createTable | alterTable | columnDefinition | constraint | constraintAction | createIndex =>
      exact absurd spelled (by simp [Shape.isVerbatim])
    | _ => rfl
  rw [layer, Shape.traverse_map]

theorem extract_grows (n : Node) (values : List Value) : values <+: (n.extract values).2 := by
  induction n using Node.inductNode generalizing values with
  | step s ih =>
    by_cases verbatim : s.isVerbatim = true
    · simp only [extract_verbatim values verbatim, List.prefix_refl]
    by_cases constant : s.kind = .constant
    · cases s with
      | constant value type =>
        by_cases null : value.isNull = true
        · simp only [extract_null type values null, List.prefix_refl]
        · rw [extract_literal type values (by simpa using null)]
          exact List.prefix_append values [value]
      | _ => exact absurd constant (by simp [Shape.kind])
    · rw [extract_mk constant (by simpa using verbatim)]
      exact (Shape.run_traverse (· <+: ·) List.prefix_refl (fun first second => first.trans second) extract s
        (fun c member x => ih c member x) values).1

end Node

end QueryTree
