import QueryTree.Proofs.Command.Reading
import QueryTree.Proofs.Command.SharedText
import QueryTree.Proofs.Dialect.PlainTexts

/-! The markers of a command stand where its values belong.

A tree can be written with a text of its own for every literal, placeholder and named parameter, at the place where
the tree has it, and then no markers are needed. Putting the texts of the slots in the place of the markers of the
command gives the same.
-/

set_option autoImplicit false

namespace QueryTree

/-- With texts instead of slots. -/
def Spelled.fill (texts : Slot → String) (s : Spelled) : Spelled :=
  { s with
    expr := fun p => Wording.fill texts <$> s.expr p
    statement := fun p => Wording.fill texts <$> s.statement p }

namespace Dialect

variable (d : Dialect)

/-- One layer, where a literal, a placeholder or a named parameter is written as the text of its slot. -/
def fillLayer (texts : Slot → String) (s : Shape Spelled) : Spelled :=
  if s.isSlot then (d.spellLayer s).fill texts else d.spellLayer s

/-- The text of a tree without slots. -/
def writtenOut (texts : Slot → String) (n : Node) : Except CompileError String := do
  let w ← ((Node.fold (d.fillLayer texts) n).statement {})
  return w.render d.marker 0

end Dialect

/-- Holds no signs in its strings. -/
def Node.isSignless (n : Node) : Prop := ∀ m ∈ n.subtrees, ∀ s ∈ m.shape.words, Plain s

namespace Node

instance (s : String) : Decidable (Plain s) := List.decidableBAll _ s.toList

instance (n : Node) : Decidable n.isSignless := List.decidableBAll _ n.subtrees

theorem isSignless_mk {s : Shape Node} :
    (Node.mk s).isSignless ↔ (∀ t ∈ s.words, Plain t) ∧ ∀ c ∈ s.children, c.isSignless := by
  simp only [isSignless, subtrees_mk, List.forall_mem_cons, List.forall_mem_flatMap]
  rfl

end Node

namespace Likeness

variable {texts : Slot → String} (full : ∀ s, texts s ≠ "")

/-- The second text is the first, which is tidy, with texts instead of slots. -/
def FilledIn (texts : Slot → String) (after : Bool) (w v : Wording) : Prop := w.Tidy after ∧ v = w.fill texts

theorem FilledIn.lead {after : Bool} {s : String} {a b : Wording} (plain : Plain s) (nonempty : s ≠ "")
    (opens : after = true → Opens s) (rest : FilledIn texts false a b) :
    FilledIn texts after (.ofText s ++ a) (.ofText s ++ b) := by
  obtain ⟨tidy, rfl⟩ := rest
  exact ⟨.lead plain nonempty opens tidy, rfl⟩

theorem FilledIn.append {after : Bool} {a b c d : Wording} (first : FilledIn texts after a b)
    (second : FilledIn texts true c d) : FilledIn texts after (a ++ c) (b ++ d) := by
  obtain ⟨tidy, rfl⟩ := first
  obtain ⟨later, rfl⟩ := second
  exact ⟨tidy.append later, (List.map_append ..).symm⟩

theorem FilledIn.blank (full : ∀ s, texts s ≠ "") {after : Bool} {a b : Wording} (filled : FilledIn texts after a b) :
    a.isBlank = b.isBlank := by
  obtain ⟨_, rfl⟩ := filled
  exact (Wording.isBlank_fill full a).symm

/-- Texts with their slots, and with texts instead of them. -/
def filled : Likeness where
  wording := FilledIn texts
  error := Eq
  shown _ := True
  taken := False
  clean := Plain
  opens := Opens
  clean_plain := id
  clean_append := .append
  opens_plain := id
  opens_append := .append
  opens_before := .before
  text plain opens := ⟨.said plain opens, rfl⟩
  lead := FilledIn.lead
  empty := ⟨trivial, rfl⟩
  append := FilledIn.append
  blank := FilledIn.blank full
  fails _ := rfl
  fails_taken := identical.fails_taken
  within _ _ := trivial

theorem filled_self {a : Spelling} (tidy : ∀ p w, a p = .ok w → w.Tidy false) :
    (filled full).Spellings a fun p => Wording.fill texts <$> a p := by
  intro p _
  show Agree Eq ((filled full).wording false) (a p) (Wording.fill texts <$> a p)
  cases written : a p with
  | error e => exact (rfl : e = e)
  | ok w => exact (⟨tidy p w written, rfl⟩ : w.Tidy false ∧ w.fill texts = w.fill texts)

end Likeness

namespace Dialect

open Likeness Node Wording

variable {d : Dialect} {texts : Slot → String} (full : ∀ s, texts s ≠ "")

theorem exprText_tidy (writes : d.Writes Plain Opens) {t : Shape Spelled} (slot : t.isSlot = true)
    (plain : ∀ s ∈ t.words, Plain s) (p : Place) {w : Wording} (written : d.exprText t p = .ok w) : w.Tidy false := by
  cases t with
  | placeholder index type => cases written; exact trivial
  | parameter name type => cases written; exact trivial
  | constant value type =>
    have written : d.constantExpr value type p = .ok w := written
    unfold constantExpr at written
    split at written
    · cases found : d.literal value with
      | error e => rw [found] at written; cases written
      | ok text =>
        rw [found] at written
        cases written
        exact .said (writes.literal plain found) nofun
    · cases written; exact trivial
  | _ => cases slot

theorem spellLayer_slot {t : Shape Spelled} (slot : t.isSlot = true) :
    (d.spellLayer t).statement = d.exprText t := by
  cases t with
  | constant | placeholder | parameter => rfl
  | _ => cases slot

theorem like_filledSlot (writes : d.Writes Plain Opens) {t : Shape Spelled} (slot : t.isSlot = true)
    (plain : ∀ s ∈ t.words, Plain s) : (filled full).Like (d.spellLayer t) ((d.spellLayer t).fill texts) := by
  have expr : (filled full).Spellings (d.exprText t) fun p => Wording.fill texts <$> d.exprText t p :=
    filled_self full fun p w => exprText_tidy writes slot plain p
  have statement : (filled full).Spellings (d.spellLayer t).statement fun p =>
      Wording.fill texts <$> (d.spellLayer t).statement p := by
    rw [spellLayer_slot slot]
    exact expr
  have words : ∀ s ∈ (d.spellLayer t).node.shape.words, Plain s := by
    show ∀ s ∈ (t.map (·.node)).words, Plain s
    rwa [Shape.words_map]
  refine ⟨.inl rfl, words, expr, ?_, ?_, statement, ?_, ?_, ?_⟩
  all_goals
    cases t with
    | constant | placeholder | parameter => exact Likeness.unsupported _
    | _ => cases slot

theorem like_filled (writes : d.Writes Plain Opens) {n : Node} (signless : n.isSignless) :
    (filled full).Like (d.spell n) (fold (d.fillLayer texts) n) := by
  induction n using Node.inductNode with
  | step s ih =>
    obtain ⟨plain, parts⟩ := isSignless_mk.mp signless
    rw [spell_mk, fold_mk]
    unfold fillLayer
    split
    next slot =>
      rw [Shape.isSlot_map] at slot
      -- What has a slot has no children, so there is nothing filled in below.
      have leaf : s.map (fold (d.fillLayer texts)) = s.map d.spell := by
        cases s with
        | constant | placeholder | parameter => rfl
        | _ => cases slot
      show (filled full).Like _ ((d.spellLayer (s.map (fold (d.fillLayer texts)))).fill texts)
      rw [leaf]
      exact like_filledSlot full writes (by rwa [Shape.isSlot_map]) (by simpa using plain)
    next layer =>
      rw [Shape.isSlot_map] at layer
      let both (c : Node) : Spelled × Spelled := (d.spell c, fold (d.fillLayer texts) c)
      have first : s.map d.spell = (s.map both).map Prod.fst := by rw [Shape.map_map]
      have second : s.map (fold (d.fillLayer texts)) = (s.map both).map Prod.snd := by rw [Shape.map_map]
      show (filled full).Like _ (d.spellLayer (s.map (fold (d.fillLayer texts))))
      rw [first, second]
      have plain : ∀ t ∈ (s.map both).words, Plain t := by rwa [Shape.words_map]
      refine Likeness.spellLayer (L := filled full) writes plain (fun c member => ?_)
        (fun slot => absurd (by rwa [Shape.isSlot_map] at slot) layer) fun _ => ⟨id, fun _ => trivial⟩
      rw [Shape.children_map] at member
      obtain ⟨c, inside, rfl⟩ := List.mem_map.mp member
      exact ih c inside (parts c inside)

/-- A command is a tidy wording, and with texts instead of its slots it is what is written out. -/
theorem tidy_of_format (writes : d.Writes Plain Opens) (marked : ∀ k, d.marker k ≠ "") {n : Node} {f : Formatted}
    (signless : n.isSignless) (formatted : d.format n = .ok f) :
    ∃ w : Wording, w.Tidy false ∧ f = ⟨w.render d.marker 0, w.slots⟩ ∧
      ∀ texts : Slot → String, (∀ s, texts s ≠ "") →
        d.writtenOut texts n = .ok ((w.fill texts).render d.marker 0) := by
  have found : ∃ w, (d.spell n).statement {} = .ok w ∧ f = ⟨w.render d.marker 0, w.slots⟩ := by
    rw [format_rendered marked, wording] at formatted
    cases spelled : (d.spell n).statement {} with
    | error e => rw [spelled] at formatted; cases formatted
    | ok w => rw [spelled] at formatted; cases formatted; exact ⟨w, rfl, rfl⟩
  obtain ⟨w, spelled, rfl⟩ := found
  -- The two spellings are taken together, so that tidiness and the text come from one induction.
  have alike (texts : Slot → String) (full : ∀ s, texts s ≠ "") :
      w.Tidy false ∧ d.writtenOut texts n = .ok ((w.fill texts).render d.marker 0) := by
    have same := (like_filled full writes signless).statement {} trivial
    rw [spelled] at same
    unfold writtenOut
    cases other : (fold (d.fillLayer texts) n).statement {} with
    | error e => rw [other] at same; exact same.elim
    | ok v =>
      rw [other] at same
      obtain ⟨tidy, rfl⟩ : w.Tidy false ∧ v = w.fill texts := same
      exact ⟨tidy, rfl⟩
  exact ⟨w, (alike (fun _ => "0") fun _ => by decide).1, rfl, fun texts full => (alike texts full).2⟩

end Dialect

/-! ### The dialects at hand -/

theorem isMarker_numbered {s : Char} {l : List Char} (sign : isSign s = true) (words : ∀ c ∈ l, isWord c = true)
    (n : Nat) : IsMarker (String.ofList (s :: l) ++ toString n) := by
  have spelled : (String.ofList (s :: l) ++ toString n).toList = s :: (l ++ Nat.toDigits 10 n) := by
    rw [String.toList_append, String.toList_ofList, Nat.toString_eq_repr, Nat.repr_eq_ofList_toDigits,
      String.toList_ofList]
    rfl
  refine ⟨s, _, spelled, sign, fun c member => ?_⟩
  rcases List.mem_append.mp member with letter | digit
  · exact words c letter
  · have digit := Nat.isDigit_of_mem_toDigits (by decide) (by decide) digit
    simp [isWord, Char.isAlphanum, digit]

theorem sqlite_marker : (String.ofList ['?']).toList = ['?'] := String.toList_ofList

theorem Shipped.isMarker (s : Shipped) (index : Nat) : IsMarker (s.dialect.marker index) := by
  cases s with
  | postgres => exact isMarker_numbered (s := '$') (l := []) rfl nofun (index + 1)
  | sqlite => exact ⟨'?', [], sqlite_marker, rfl, nofun⟩
  | sqlServer paging =>
    have letter : ∀ c ∈ ['p'], isWord c = true := fun c member => by
      obtain rfl := List.mem_singleton.mp member
      rfl
    exact isMarker_numbered (s := '@') (l := ['p']) rfl letter index

/-- Read from left to right, the markers of a command are those of its slots, each where the value of its slot
belongs. -/
theorem Shipped.markers_aligned (s : Shipped) {n : Node} {f : Formatted} (signless : n.isSignless)
    (formatted : s.dialect.format n = .ok f) :
    readMarkers f.text.toList = (List.range f.slots.length).map s.dialect.marker ∧
      (s = .sqlite → f.text.toList.count '?' = f.slots.length) ∧
      ∀ texts : Slot → String, (∀ slot, texts slot ≠ "") → s.dialect.writtenOut texts n =
        .ok (String.ofList (replaceMarkers false (f.slots.map texts) f.text.toList)) := by
  obtain ⟨w, tidy, rfl, filled⟩ := Dialect.tidy_of_format s.writes (fun k => (s.isMarker k).ne_empty) signless formatted
  refine ⟨?_, ?_, fun texts full => ?_⟩
  · rw [tidy.readMarkers s.isMarker 0, List.range_eq_range']
  · rintro rfl
    exact tidy.count rfl (fun k => congrArg (List.count '?') sqlite_marker) 0
  · rw [filled texts full, tidy.replaceMarkers s.isMarker 0 0, String.ofList_toList]

/-- A row limit is written before the filter, and has the first marker. -/
theorem Shipped.markers_aligned_top :
    let n : Node := .select {
      label := "q"
      source := some (.table "t" "t0" (.entity "t"))
      columns := [⟨"a", .column ⟨"t0", "a", .int32⟩⟩]
      filter := some (.binary .eq (.column ⟨"t0", "b", .int32⟩) (.parameter "b" .int32) .boolean)
      take := some (.constant (.int32 5) .int32) }
    let f : Formatted :=
      { text := "SELECT TOP (@p0) [t0].[a] FROM [t] AS [t0] WHERE [t0].[b] = @p1"
        slots := [⟨.literal (.int32 5), .int32⟩, ⟨.named "b", .int32⟩] }
    n.isSignless ∧ (Shipped.sqlServer .offsetFetch).dialect.format n = .ok f ∧
      readMarkers f.text.toList = ["@p0", "@p1"] := by
  intro n f
  have signless : n.isSignless := by decide +kernel
  have formatted : (Shipped.sqlServer .offsetFetch).dialect.format n = .ok f := by decide +kernel
  exact ⟨signless, formatted, (Shipped.markers_aligned _ signless formatted).1⟩

end QueryTree
