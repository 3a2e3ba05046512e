import QueryTree.Dialect.Shipped
import QueryTree.Proofs.Command.SharedText

/-! Literals taken out and given back.

A tree may be written with its literals as they are, or without them and with the values bound afterwards. Both
give one command: a literal has a slot wherever a placeholder has one, and a placeholder is bound to the literal it
stands for. What is part of the text has no slot either way. Only an error that names the kind of a node tells the
two apart.
-/

set_option autoImplicit false

namespace QueryTree

/-- Pieces that are bound to the same, the first by values beside the tree. -/
inductive SamePiece (values : List Value) (named : Named) : Piece → Piece → Prop
  | text (s : String) : SamePiece values named (.text s) (.text s)
  | slot {s s' : Slot} (same : s.bind values named = s'.bind [] named) : SamePiece values named (.slot s) (.slot s')

namespace SamePiece

variable {values : List Value} {named : Named} {w v : Wording}

theorem isBlank (same : List.Forall₂ (SamePiece values named) w v) : w.isBlank = v.isBlank := by
  induction same with
  | nil => rfl
  | @cons p q w v here _ ih =>
    have here : p.isBlank = q.isBlank := by cases here <;> rfl
    simp only [Wording.isBlank, List.all_cons, here] at ih ⊢
    rw [ih]

theorem render (same : List.Forall₂ (SamePiece values named) w v) (marker : Nat → String) (next : Nat) :
    w.render marker next = v.render marker next := by
  induction same generalizing next with
  | nil => rfl
  | cons here _ ih =>
    cases here with
    | text s => simp only [Wording.render, ih]
    | slot same => simp only [Wording.render, ih]

theorem bind (same : List.Forall₂ (SamePiece values named) w v) :
    w.slots.mapM (Slot.bind values named) = v.slots.mapM (Slot.bind [] named) := by
  induction same with
  | nil => rfl
  | cons here _ ih =>
    cases here with
    | text s => exact ih
    | slot same =>
      simp only [Wording.slots, List.filterMap_cons, Piece.slot?, List.mapM_cons] at ih ⊢
      rw [same, ih]

theorem count (same : List.Forall₂ (SamePiece values named) w v) : w.slots.length = v.slots.length := by
  induction same with
  | nil => rfl
  | cons here _ ih =>
    cases here with
    | text s => exact ih
    | slot same => simpa [Wording.slots, Piece.slot?] using ih

variable {ws vs : List Wording}

theorem renders (same : List.Forall₂ (List.Forall₂ (SamePiece values named)) ws vs) (marker : Nat → String) (next : Nat) :
    Wording.renders marker next ws = Wording.renders marker next vs := by
  induction same generalizing next with
  | nil => rfl
  | cons here _ ih => rw [Wording.renders_cons, Wording.renders_cons, render here, count here, ih]

theorem binds (same : List.Forall₂ (List.Forall₂ (SamePiece values named)) ws vs) :
    (ws.flatMap Wording.slots).mapM (Slot.bind values named) = (vs.flatMap Wording.slots).mapM (Slot.bind [] named) := by
  induction same with
  | nil => rfl
  | cons here _ ih => rw [List.flatMap_cons, List.flatMap_cons, List.mapM_append, List.mapM_append, bind here, ih]

end SamePiece

namespace Likeness

/-- Texts that come to one command. `taken` says whether literals were taken out of the first. -/
def bound (values : List Value) (named : Named) (taken : Prop) : Likeness where
  wording _ := List.Forall₂ (SamePiece values named)
  error e e' := e = e' ∨ taken ∧ e = .unsupportedNode .placeholder ∧ e' = .unsupportedNode .constant
  shown p := taken → p.inline = false
  taken := taken
  clean _ := True
  opens _ := True
  clean_plain _ := trivial
  clean_append _ _ := trivial
  opens_plain _ := trivial
  opens_append _ _ := trivial
  opens_before _ _ _ := trivial
  text _ _ := .cons (.text _) .nil
  lead _ _ _ rest := .cons (.text _) rest
  empty := .nil
  append first second := List.rel_append first second
  blank := SamePiece.isBlank
  fails _ := .inl rfl
  fails_taken taken := .inr ⟨taken, rfl, rfl⟩
  within _ shown := shown

theorem bound_writes (values : List Value) (named : Named) (taken : Prop) (d : Dialect) :
    d.Writes (bound values named taken).clean (bound values named taken).opens :=
  .of_all (fun _ => trivial) (fun _ => trivial) d

variable {values : List Value} {named : Named}

theorem bound_exact : (bound values named False).Exact := ⟨id, fun _ => False.elim⟩

theorem Spellings.weaken {a b : Spelling} (same : (bound values named False).Spellings a b) (taken : Prop) :
    (bound values named taken).Spellings a b := by
  intro p _
  have here := same p False.elim
  cases first : a p with
  | error e =>
    cases second : b p with
    | error e' =>
      rw [first, second] at here
      exact .inl (here.resolve_right fun taken => taken.1)
    | ok v => rw [first, second] at here; exact here.elim
  | ok w =>
    cases second : b p with
    | error e' => rw [first, second] at here; exact here.elim
    | ok v => rw [first, second] at here; exact here

theorem Like.weaken {a b : Spelled} (like : (bound values named False).Like a b) (taken : Prop) :
    (bound values named taken).Like a b :=
  ⟨.inl (like.node.resolve_right fun taken => taken.1), fun _ _ => trivial, like.expr.weaken taken, like.source.weaken taken,
    like.query.weaken taken, like.statement.weaken taken, like.definition.weaken taken,
    like.constraint.weaken taken, like.action.weaken taken⟩

end Likeness

/-- Holds no placeholders. -/
def Node.isWhole (n : Node) : Prop := ∀ m ∈ n.subtrees, m.kind ≠ .placeholder

namespace Node

theorem isWhole_mk {s : Shape Node} : (Node.mk s).isWhole ↔ s.kind ≠ .placeholder ∧ ∀ c ∈ s.children, c.isWhole := by
  simp only [isWhole, subtrees_mk, List.forall_mem_cons, List.forall_mem_flatMap]
  rfl

end Node

namespace Dialect

open Likeness Node

variable (d : Dialect) {values : List Value} {named : Named}

theorem own_slot {taken : Prop} {t : Shape (Spelled × Spelled)} (slot : t.isSlot = true) (own : t.kind ≠ .placeholder) :
    (bound values named taken).Spellings (d.exprText (t.map Prod.fst)) (d.exprText (t.map Prod.snd)) := by
  cases t with
  | constant value type =>
    exact Likeness.constantExpr (bound_writes values named taken d) (fun _ _ => trivial) (.cons (.slot rfl) .nil)
  | parameter name type => exact fun _ _ => .cons (.slot rfl) .nil
  | placeholder index type => exact absurd rfl own
  | _ => exact absurd slot (by simp [Shape.isSlot])

theorem like_self {n : Node} (whole : n.isWhole) : (bound values named False).Like (d.spell n) (d.spell n) := by
  induction n using Node.inductNode with
  | step s ih =>
    obtain ⟨notPlaceholder, parts⟩ := isWhole_mk.mp whole
    have both (r : Spelled × Spelled → Spelled) (one : ∀ x, r (x, x) = x) :
        d.spell (.mk s) = d.spellLayer ((s.map fun c => (d.spell c, d.spell c)).map r) := by
      rw [spell_mk, Shape.map_map]
      simp only [one]
    have pair : (bound values named False).Like
        (d.spellLayer ((s.map fun c => (d.spell c, d.spell c)).map Prod.fst))
        (d.spellLayer ((s.map fun c => (d.spell c, d.spell c)).map Prod.snd)) := by
      refine Likeness.spellLayer (bound_writes values named False d) (fun _ _ => trivial) (fun c member => ?_)
        (fun slot => d.own_slot slot (by simpa using notPlaceholder)) fun _ => bound_exact
      rw [Shape.children_map] at member
      obtain ⟨c, inside, rfl⟩ := List.mem_map.mp member
      exact ih c inside (parts c inside)
    rwa [← both Prod.fst fun _ => rfl, ← both Prod.snd fun _ => rfl] at pair

theorem like_literal {value : Value} (type : DataType) (notNull : value.isNull = false) {index : Nat}
    (found : values[index]? = some value) :
    (bound values named True).Like (d.spell (.placeholder index type)) (d.spell (.constant value type)) := by
  have expr : (bound values named True).Spellings (d.spell (.placeholder index type)).expr
      (d.spell (.constant value type)).expr := by
    intro p shown
    have spelled : (d.spell (.constant value type)).expr p = .ok (slotOf (.literal value) type) := by
      show d.constantExpr value type p = _
      simp only [constantExpr, shown trivial, notNull, Bool.or_self, Bool.false_eq_true, if_false]
      rfl
    rw [spelled]
    refine .cons (.slot ?_) .nil
    simp only [Slot.bind, found]
  have fails : (bound values named True).Spellings (QueryTree.unsupported .placeholder)
      (QueryTree.unsupported .constant) := fun _ _ => .inr ⟨trivial, rfl, rfl⟩
  exact ⟨.inr ⟨trivial, index, value, type, rfl, rfl, notNull⟩, fun _ _ => trivial, expr, fails, fails, expr, fails,
    fails, fails⟩

theorem like_extracted {n : Node} (whole : n.isWhole) {before : List Value}
    (kept : (n.extract before).2 <+: values) :
    (bound values named True).InOrder d (n.extract before).1 n := by
  induction n using Node.inductNode generalizing before with
  | step s ih =>
    obtain ⟨notPlaceholder, parts⟩ := isWhole_mk.mp whole
    -- Literals that are part of the text stay where they are, so the node is itself.
    by_cases verbatim : s.isVerbatim = true
    · rw [extract_verbatim before verbatim]
      have single := Shape.single_of_verbatim verbatim
      exact .single ((d.like_self whole).weaken True) single single
    by_cases constant : s.kind = .constant
    · cases s with
      | constant value type =>
        by_cases null : value.isNull = true
        · rw [extract_null type before null]
          exact .single ((d.like_self whole).weaken True) nofun nofun
        · have notNull : value.isNull = false := by simpa using null
          rw [extract_literal type before notNull] at kept ⊢
          obtain ⟨after, rfl⟩ := kept
          exact .single (d.like_literal type notNull (by simp)) nofun nofun
      | _ => exact absurd constant (by simp [Shape.kind])
    · have spelled : s.isVerbatim = false := by simpa using verbatim
      rw [extract_mk constant spelled] at kept ⊢
      obtain ⟨_, members⟩ := Shape.run_traverse (· <+: ·) List.prefix_refl (fun first second => first.trans second)
        extract s (fun c _ values => extract_grows c values) before
      have kinds : (s.replaced extract before).kind = s.kind := by
        rw [← Shape.kind_map Prod.fst, Shape.replaced_fst]
      have words : (s.replaced extract before).isVerbatim = s.isVerbatim := by
        rw [← Shape.isVerbatim_map Prod.fst, Shape.replaced_fst]
      have layers := InOrder.layer (L := bound values named True) (d := d)
        (z := (s.replaced extract before).map fun c => (c.2, c.1))
      simp only [Shape.map_map, Shape.replaced_fst, Shape.replaced_snd, Shape.children_map, List.forall_mem_map] at layers
      have likes : ∀ c ∈ (s.replaced extract before).children, (bound values named True).InOrder d c.2 c.1 := by
        intro c member
        obtain ⟨inLayer, middle, _, answer, finish⟩ := members c member
        rw [answer]
        exact ih c.1 inLayer (parts c.1 inLayer) (finish.trans kept)
      refine layers ?_ likes
      have first : d.spell (.mk (s.traverse extract before).1) =
          d.spellLayer (((s.replaced extract before).map fun c => (d.spell c.2, d.spell c.1)).map Prod.fst) := by
        rw [spell_mk, ← Shape.replaced_snd, Shape.map_map, Shape.map_map]
      have second : d.spell (.mk s) =
          d.spellLayer (((s.replaced extract before).map fun c => (d.spell c.2, d.spell c.1)).map Prod.snd) := by
        have children : (s.replaced extract before).map (fun c => d.spell c.1) = s.map d.spell := by
          rw [← Shape.map_map d.spell, Shape.replaced_fst]
        rw [spell_mk, Shape.map_map, children]
      rw [first, second]
      refine Likeness.spellLayer (bound_writes values named True d) (fun _ _ => trivial) (fun c member => ?_)
        (fun slot => d.own_slot slot ?_) fun inText => ?_
      · rw [Shape.children_map] at member
        obtain ⟨c, inside, rfl⟩ := List.mem_map.mp member
        exact (likes c inside).whole
      · rwa [Shape.kind_map, kinds]
      · rw [Shape.isVerbatim_map, words] at inText
        exact absurd inText verbatim

/-- A tree without its literals, bound to them, gives the command of the tree as it is. An error that says which kind
of node can't be written may name the placeholder for the literal. -/
theorem bind_extracted (named : Named) {n : Node} (whole : n.isWhole) :
    let substituted := d.format n.extractLiterals.1 >>= fun f => f.bind n.extractLiterals.2 named
    let direct := d.format n >>= fun f => f.bind [] named
    substituted = direct ∨
      substituted = .error (.unsupportedNode .placeholder) ∧ direct = .error (.unsupportedNode .constant) := by
  have like : (bound n.extractLiterals.2 named True).InOrder d n.extractLiterals.1 n :=
    d.like_extracted whole (List.prefix_refl (n.extract []).2)
  have agree : Agree (bound n.extractLiterals.2 named True).error Eq
      (d.format n.extractLiterals.1 >>= fun f => f.bind n.extractLiterals.2 named)
      (d.format n >>= fun f => f.bind [] named) := by
    rw [format_statements, format_statements, bind_map_left, bind_map_left]
    refine (like.statements (p := {}) fun _ => rfl).bind fun ws vs same => ?_
    -- The same values are bound in the same order, or both bindings fail alike.
    have slots : (ws.flatMap Wording.slots).mapM (Slot.bind n.extractLiterals.2 named) =
        (vs.flatMap Wording.slots).mapM (Slot.bind [] named) := SamePiece.binds same
    simp only [Formatted.bind, SamePiece.renders same, slots]
    cases (vs.flatMap Wording.slots).mapM (Slot.bind [] named) with
    | error e => exact .inl rfl
    | ok values => exact rfl
  generalize d.format n.extractLiterals.1 >>= _ = substituted at agree
  generalize d.format n >>= _ = direct at agree
  cases substituted with
  | error e =>
    cases direct with
    | error e' =>
      rcases agree with rfl | ⟨_, rfl, rfl⟩
      · exact .inl rfl
      · exact .inr ⟨rfl, rfl⟩
    | ok v => exact agree.elim
  | ok w =>
    cases direct with
    | error e' => exact agree.elim
    | ok v => exact .inl (congrArg Except.ok agree)

/-- A query of one literal. -/
theorem bind_extracted_column :
    let n : Node := .select { label := "s", columns := [⟨"one", .constant (.int32 1) .int32⟩] }
    n.isWhole ∧ (Dialect.postgres.format n.extractLiterals.1 >>= fun f => f.bind n.extractLiterals.2 []) =
      (Dialect.postgres.format n >>= fun f => f.bind [] []) := by
  have whole : (Node.select { label := "s", columns := [⟨"one", .constant (.int32 1) .int32⟩] }).isWhole := by
    simp [isWhole_mk, Shape.kind, Shape.children, Select.children]
  refine ⟨whole, ?_⟩
  rcases Dialect.postgres.bind_extracted [] whole with same | ⟨failed, _⟩
  · exact same
  · exact absurd failed (by decide +kernel)

/-- Where a source of rows should stand, a literal is named by the one error and its placeholder by the other. -/
theorem literal_source_named :
    ¬ ∀ (d : Dialect) (named : Named) (n : Node), n.isWhole →
      (d.format n.extractLiterals.1 >>= fun f => f.bind n.extractLiterals.2 named) =
        (d.format n >>= fun f => f.bind [] named) := by
  intro always
  have whole : (Node.select { label := "s", source := some (.constant (.int32 1) .int32) }).isWhole := by
    simp [isWhole_mk, Shape.kind, Shape.children, Select.children]
  have same := always .postgres [] _ whole
  exact absurd same (by decide +kernel)

end Dialect

end QueryTree
