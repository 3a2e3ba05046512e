import QueryTree.Proofs.Command.Formatting
import QueryTree.Proofs.Node.Extraction
import QueryTree.Proofs.Node.Pairing

/-! One text for all trees that differ in literals only.

Alike trees become the same text once their literals are taken out. The literals that stay are part of the
text, and those a comparison does not pass over; of the rest a placeholder is left, whose index is the number of
literals before it and so the same in both trees.
-/

set_option autoImplicit false

namespace QueryTree

def Likeness.identical : Likeness where
  wording _ := Eq
  error := Eq
  shown _ := True
  taken := False
  clean _ := True
  opens _ := True
  clean_plain _ := trivial
  clean_append _ _ := trivial
  opens_plain _ := trivial
  opens_append _ _ := trivial
  opens_before _ _ _ := trivial
  text _ _ := rfl
  lead _ _ _ rest := by rw [rest]
  empty := rfl
  append first second := by rw [first, second]
  blank same := by rw [same]
  fails _ := rfl
  fails_taken := False.elim
  within _ _ := trivial

theorem Likeness.identical_writes (d : Dialect) : d.Writes identical.clean identical.opens :=
  .of_all (fun _ => trivial) (fun _ => trivial) d

theorem Likeness.identical_exact : identical.Exact := ⟨id, fun _ => trivial⟩

namespace Likeness

theorem identical_iff {a b : Spelling} : identical.Spellings a b ↔ a = b := by
  constructor
  · intro same
    funext p
    exact (same p trivial).eq
  · rintro rfl p _
    exact Agree.refl _

theorem identical_refl (s : Spelled) : identical.Like s s :=
  ⟨.inl rfl, fun _ _ => trivial, identical_iff.mpr rfl, identical_iff.mpr rfl, identical_iff.mpr rfl, identical_iff.mpr rfl,
    identical_iff.mpr rfl, identical_iff.mpr rfl, identical_iff.mpr rfl⟩

end Likeness

namespace Dialect

variable (d : Dialect)

/-- What a layer that is part of the command text takes from a child. -/
structure SameParts (a b : Spelled) : Prop where
  definition : a.definition = b.definition
  constraint : a.constraint = b.constraint
  action : a.action = b.action
  name : constraintName? a.node = constraintName? b.node

def spellBoth (c : Node × Node) : Spelled × Spelled := (d.spell c.1, d.spell c.2)

theorem spell_first (z : Shape (Node × Node)) :
    d.spell (.mk (z.map Prod.fst)) = d.spellLayer ((z.map d.spellBoth).map Prod.fst) := by
  rw [spell_mk, Shape.map_map, Shape.map_map]
  rfl

theorem spell_second (z : Shape (Node × Node)) :
    d.spell (.mk (z.map Prod.snd)) = d.spellLayer ((z.map d.spellBoth).map Prod.snd) := by
  rw [spell_mk, Shape.map_map, Shape.map_map]
  rfl

end Dialect

/-- For comparisons that pass over the values of literals. -/
def Leniency.literals : Leniency := { constants := true }

open Likeness Dialect Node

variable (d : Dialect)

theorem Node.Paired.same {z : Shape (Node × Node)} (both : Paired .literals z)
    (inline : Leniency.literals.under z = {}) : z.map Prod.fst = z.map Prod.snd :=
  Shape.map_congr fun c member => eq_of_alike (inline ▸ both.each c member)

/-- The parts of the text that hold literals are the same in alike trees. -/
theorem parts_of_alike {a b : Node} (same : a.alike .literals b = true) : SameParts (d.spell a) (d.spell b) := by
  induction a using Node.inductNode generalizing b with
  | step s ih =>
    generalize whole : Node.mk s = a at same
    cases alike_layers same with
    | constants type values => exact ⟨rfl, rfl, rfl, rfl⟩
    | placeholders type indices => exact ⟨rfl, rfl, rfl, rfl⟩
    | paired z both =>
      obtain rfl := Node.mk.inj whole
      -- A child whose literals are part of the text was compared with nothing passed over.
      by_cases inline : Leniency.literals.under z = {}
      · rw [both.same inline]
        exact ⟨rfl, rfl, rfl, rfl⟩
      have each : Leniency.literals.under z = .literals → ∀ c ∈ z.children, SameParts (d.spell c.1) (d.spell c.2) := by
        intro outer c member
        refine ih c.1 ?_ (outer ▸ both.each c member)
        rw [Shape.children_map]
        exact List.mem_map_of_mem member
      rw [spell_first, spell_second]
      cases z with
      | constraint name kind => exact absurd rfl inline
      | columnDefinition name type constraints =>
        refine ⟨identical_iff.mp (definitionText (identical_writes d) (fun _ _ => trivial) fun c member => ?_), rfl, rfl, rfl⟩
        obtain ⟨c, inside, rfl⟩ := List.mem_map.mp member
        exact identical_iff.mpr (each rfl c inside).constraint
      | constraintAction change target =>
        have target := each rfl target (List.mem_singleton.mpr rfl)
        exact ⟨rfl, rfl, identical_iff.mp (actionText (identical_writes d) change (identical_iff.mpr target.constraint)
          target.name fun _ _ => trivial), rfl⟩
      | _ => exact ⟨rfl, rfl, rfl, rfl⟩

theorem verbatim_of_alike {z : Shape (Node × Node)} (both : Paired .literals z) (verbatim : z.isVerbatim = true) :
    identical.Like (d.spell (.mk (z.map Prod.fst))) (d.spell (.mk (z.map Prod.snd))) := by
  -- Where literals are written into the text, they were compared, and the layers are the same.
  by_cases inline : Leniency.literals.under z = {}
  · rw [both.same inline]
    exact identical_refl _
  have each : Leniency.literals.under z = .literals → ∀ c ∈ z.children, SameParts (d.spell c.1) (d.spell c.2) :=
    fun outer c member => parts_of_alike d (outer ▸ both.each c member)
  have node : identical.Nodes (d.spell (.mk (z.map Prod.fst))).node (d.spell (.mk (z.map Prod.snd))).node := by
    left
    simp only [spell_node, Node.look, Node.shape_mk, Shape.map_map]
  have unsaid : ∀ kind, identical.Spellings (QueryTree.unsupported kind) (QueryTree.unsupported kind) := Likeness.unsupported
  rw [spell_first, spell_second] at node ⊢
  cases z with
  | setCommand | constraint | createIndex => exact absurd rfl inline
  | createTable t =>
    have members : ∀ c ∈ t.columns ++ t.constraints, SameParts (d.spell c.1) (d.spell c.2) := each rfl
    refine ⟨node, fun _ _ => trivial, unsaid _, unsaid _, unsaid _,
      createTableText (identical_writes d) trivial (fun c member => ?_) fun c member => ?_,
      unsaid _, unsaid _, unsaid _⟩
    · obtain ⟨c, inside, rfl⟩ := List.mem_map.mp member
      exact identical_iff.mpr (members c (List.mem_append_left _ inside)).definition
    · obtain ⟨c, inside, rfl⟩ := List.mem_map.mp member
      exact identical_iff.mpr (members c (List.mem_append_right _ inside)).constraint
  | alterTable owner actions =>
    refine ⟨node, fun _ _ => trivial, unsaid _, unsaid _, unsaid _, alterTableText (identical_writes d) trivial
      fun c member => ?_, unsaid _, unsaid _, unsaid _⟩
    obtain ⟨c, inside, rfl⟩ := List.mem_map.mp member
    exact identical_iff.mpr (each rfl c inside).action
  | columnDefinition name type constraints =>
    refine ⟨node, fun _ _ => trivial, unsaid _, unsaid _, unsaid _, unsaid _,
      definitionText (identical_writes d) (fun _ _ => trivial) fun c member => ?_,
      unsaid _, unsaid _⟩
    obtain ⟨c, inside, rfl⟩ := List.mem_map.mp member
    exact identical_iff.mpr (each rfl c inside).constraint
  | constraintAction change target =>
    have target := each rfl target (List.mem_singleton.mpr rfl)
    exact ⟨node, fun _ _ => trivial, unsaid _, unsaid _, unsaid _, unsaid _, unsaid _, unsaid _,
      actionText (identical_writes d) change (identical_iff.mpr target.constraint) target.name fun _ _ => trivial⟩
  | _ => exact absurd verbatim (by simp [Shape.isVerbatim])

/-- Trees that are alike stay so written when their literals are taken out, after as many of others. -/
theorem like_of_alike {a b : Node} (same : a.alike .literals b = true) {xs ys : List Value}
    (count : xs.length = ys.length) :
    identical.InOrder d (a.extract xs).1 (b.extract ys).1 ∧ (a.extract xs).2.length = (b.extract ys).2.length := by
  have itself := InOrder.self (d := d) fun n => identical_refl (d.spell n)
  induction a using Node.inductNode generalizing b xs ys with
  | step s ih =>
    generalize whole : Node.mk s = a at same
    cases alike_layers same with
    | @constants value value' type values =>
      have values : value.isNull = value'.isNull := values
      by_cases null : value.isNull = true
      · have nulls : value = .null ∧ value' = .null := by
          cases value <;> cases value' <;> simp_all [Value.isNull]
        obtain ⟨rfl, rfl⟩ := nulls
        rw [extract_null type xs rfl, extract_null type ys rfl]
        exact ⟨itself _, count⟩
      · have notNull : value.isNull = false := by simpa using null
        rw [extract_literal type xs notNull, extract_literal type ys (values ▸ notNull), count]
        exact ⟨itself _, by simp [count]⟩
    | placeholders type indices =>
      obtain rfl := indices.resolve_left (by simp [Leniency.literals])
      exact ⟨itself _, count⟩
    | paired z both =>
      obtain rfl := Node.mk.inj whole
      by_cases verbatim : z.isVerbatim = true
      · rw [extract_verbatim xs (by simpa using verbatim), extract_verbatim ys (by simpa using verbatim)]
        have single := Shape.single_of_verbatim verbatim
        refine ⟨.single (verbatim_of_alike d both verbatim) ?_ ?_, count⟩
        · simpa [Node.kind] using single
        · simpa [Node.kind] using single
      -- Comparisons of children are stricter below layers that are verbatim only.
      have under : Leniency.literals.under z = .literals := by
        cases z <;> first | rfl | exact absurd rfl verbatim
      have each : ∀ c ∈ z.children, ∀ xs ys : List Value, xs.length = ys.length →
          identical.InOrder d (c.1.extract xs).1 (c.2.extract ys).1 ∧
            (c.1.extract xs).2.length = (c.2.extract ys).2.length := by
        intro c member xs ys count
        refine ih c.1 ?_ (under ▸ both.each c member) count
        rw [Shape.children_map]
        exact List.mem_map_of_mem member
      have kind : (z.map Prod.fst).kind ≠ .constant ∧ (z.map Prod.snd).kind ≠ .constant := by
        simpa using both.notConstant
      rw [extract_mk kind.1 (by simpa using verbatim), extract_mk kind.2 (by simpa using verbatim),
        Shape.traverse_map, Shape.traverse_map]
      obtain ⟨r, first, second, likes, counts⟩ := Shape.traverse_both
        (fun (xs ys : List Value) => xs.length = ys.length)
        (identical.InOrder d) each count
      refine ⟨?_, counts⟩
      show identical.InOrder d (.mk (z.traverse (fun c => c.1.extract) xs).1)
        (.mk (z.traverse (fun c => c.2.extract) ys).1)
      rw [← first, ← second]
      refine .layer ?_ likes
      rw [spell_first, spell_second]
      refine Likeness.spellLayer (identical_writes d) (fun _ _ => trivial) (fun c member => ?_)
        (fun slot => identical_iff.mpr (exprText_slot d slot)) fun _ => identical_exact
      rw [Shape.children_map] at member
      obtain ⟨c, inside, rfl⟩ := List.mem_map.mp member
      exact (likes c inside).whole

/-- Without their literals, trees that are alike have one text with the same slots, or the same error. -/
theorem format_of_alike {a b : Node} (same : a.alike .literals b = true) :
    d.format a.extractLiterals.1 = d.format b.extractLiterals.1 := by
  have like := (like_of_alike d same (rfl : ([] : List Value).length = [].length)).1
  have statements : d.statementsOf a.extractLiterals.1.sequence {} = d.statementsOf b.extractLiterals.1.sequence {} := by
    have agree := like.statements (p := {}) trivial
    change Agree Eq (List.Forall₂ Eq) _ _ at agree
    rw [List.forall₂_eq_eq_eq] at agree
    exact agree.eq
  rw [format_statements, format_statements, statements]

end QueryTree
