import Mathlib.Data.List.Range
import QueryTree.Command.Basic
import QueryTree.Proofs.Command.Plain

/-! Parameter markers read back from a text.

A database reads a text from left to right: a sign begins a marker, and the marker ends with the last letter or
digit behind it. In a tidy wording the texts between the slots hold no signs and none of them carries a marker on,
so what is read are the markers of the slots, in their order and at their places.
-/

set_option autoImplicit false

namespace QueryTree

/-- The markers of a text from left to right. -/
def readMarkers : List Char → List String
  | [] => []
  | c :: rest =>
    if isSign c then String.ofList (c :: rest.takeWhile isWord) :: readMarkers rest else readMarkers rest

/-- The text with the next of the given texts in the place of every marker. With `true`, inside a marker. -/
def replaceMarkers : Bool → List String → List Char → List Char
  | _, _, [] => []
  | inside, texts, c :: rest =>
    if isSign c then (texts.headD "").toList ++ replaceMarkers true texts.tail rest
    else if inside && isWord c then replaceMarkers true texts rest
    else c :: replaceMarkers false texts rest

/-- A sign with letters and digits behind it. -/
def IsMarker (s : String) : Prop := ∃ sign rest, s.toList = sign :: rest ∧ isSign sign = true ∧ ∀ c ∈ rest, isWord c = true

theorem IsMarker.ne_empty {s : String} (marker : IsMarker s) : s ≠ "" := by
  rintro rfl
  obtain ⟨sign, rest, spelled, _⟩ := marker
  cases spelled

theorem not_sign_of_word {c : Char} (word : isWord c = true) : isSign c = false := by
  cases sign : isSign c with
  | false => rfl
  | true => rw [not_word_of_sign sign] at word; cases word

section Characters

variable {plain tail rest : List Char} {inside : Bool} {texts : List String}

theorem readMarkers_signless (signless : ∀ c ∈ plain, isSign c = false) :
    readMarkers (plain ++ rest) = readMarkers rest := by
  induction plain with
  | nil => rfl
  | cons c plain ih =>
    obtain ⟨here, later⟩ := List.forall_mem_cons.mp signless
    simp only [List.cons_append, readMarkers, here, Bool.false_eq_true, if_false]
    exact ih later

theorem takeWhile_word (words : ∀ c ∈ tail, isWord c = true) (ends : ∀ c ∈ rest.head?, isWord c = false) :
    (tail ++ rest).takeWhile isWord = tail := by
  rw [List.takeWhile_append_of_pos words]
  cases rest with
  | nil => simp
  | cons c rest => simp [ends c rfl]

theorem readMarkers_marker {m : String} (marker : IsMarker m) (ends : ∀ c ∈ rest.head?, isWord c = false) :
    readMarkers (m.toList ++ rest) = m :: readMarkers rest := by
  obtain ⟨sign, tail, spelled, isSign, words⟩ := marker
  have whole : String.ofList (sign :: tail) = m := by rw [← spelled, String.ofList_toList]
  simp only [spelled, List.cons_append, readMarkers, isSign, if_true]
  rw [takeWhile_word words ends, whole, readMarkers_signless fun c member => not_sign_of_word (words c member)]

theorem replaceMarkers_signless (signless : ∀ c ∈ plain, isSign c = false)
    (ends : inside = true → ∀ c ∈ plain.head?, isWord c = false) :
    replaceMarkers inside texts (plain ++ rest) = plain ++ replaceMarkers (inside && plain.isEmpty) texts rest := by
  induction plain generalizing inside with
  | nil => simp
  | cons c plain ih =>
    obtain ⟨here, later⟩ := List.forall_mem_cons.mp signless
    have outside : (inside && isWord c) = false := by
      cases inside with
      | false => rfl
      | true => exact ends rfl c rfl
    have kept : replaceMarkers false texts (plain ++ rest) =
        plain ++ replaceMarkers (false && plain.isEmpty) texts rest := ih later fun inside => by cases inside
    simp only [List.cons_append, replaceMarkers, here, outside, Bool.false_eq_true, if_false, kept]
    simp

theorem replaceMarkers_words (words : ∀ c ∈ tail, isWord c = true) :
    replaceMarkers true texts (tail ++ rest) = replaceMarkers true texts rest := by
  induction tail with
  | nil => rfl
  | cons c tail ih =>
    obtain ⟨here, later⟩ := List.forall_mem_cons.mp words
    simp only [List.cons_append, replaceMarkers, not_sign_of_word here, here, Bool.false_eq_true, if_false,
      Bool.and_self, if_true]
    exact ih later

theorem replaceMarkers_marker {m text : String} (marker : IsMarker m) :
    replaceMarkers inside (text :: texts) (m.toList ++ rest) = text.toList ++ replaceMarkers true texts rest := by
  obtain ⟨sign, tail, spelled, isSign, words⟩ := marker
  simp only [spelled, List.cons_append, replaceMarkers, isSign, if_true, List.headD_cons, List.tail_cons]
  rw [replaceMarkers_words words]

end Characters

/-! ### Wordings one behind the other -/

namespace Wording

variable {marker : Nat → String}

@[simp] theorem slots_append (w v : Wording) : slots (w ++ v) = slots w ++ slots v := List.filterMap_append

@[simp] theorem slots_ofText (s : String) : slots (ofText s) = [] := rfl

@[simp] theorem slots_parenthesized (w : Wording) : w.parenthesized.slots = w.slots := by simp [parenthesized]

theorem slots_joined (separator : String) (ws : List Wording) : slots (joined separator ws) = ws.flatMap slots := by
  induction ws with
  | nil => rfl
  | cons w ws ih =>
    cases ws with
    | nil => simp [joined]
    | cons v ws =>
      have rest : joined separator (w :: v :: ws) = w ++ ofText separator ++ joined separator (v :: ws) := rfl
      rw [rest, slots_append, slots_append, ih, slots_ofText, List.append_nil]
      rfl

@[simp] theorem render_ofText (s : String) (next : Nat) : (ofText s).render marker next = s := String.append_empty

@[simp] theorem render_append (w v : Wording) (next : Nat) :
    (w ++ v).render marker next = w.render marker next ++ v.render marker (next + w.slots.length) := by
  induction w generalizing next with
  | nil => simp [render, slots]
  | cons piece w ih =>
    cases piece with
    | text s => simp only [List.cons_append, render, ih, String.append_assoc, slots, List.filterMap_cons, Piece.slot?]
    | slot s =>
      have count : next + (slots (.slot s :: w)).length = next + 1 + (slots w).length := by
        simp only [slots, List.filterMap_cons, Piece.slot?, List.length_cons]
        omega
      simp only [List.cons_append, render, ih, String.append_assoc, count]

end Wording

/-! ### Tidy wordings -/

namespace Wording

/-- The texts hold no signs, and none begins like the rest of a marker that stands right before it. With `true`, a
marker stands before the first piece. -/
def Tidy : Bool → Wording → Prop
  | _, [] => True
  | after, .text s :: rest => Plain s ∧ (after = true → Opens s) ∧ Tidy (after && s.isEmpty) rest
  | _, .slot _ :: rest => Tidy true rest

variable {after : Bool} {w v : Wording} {marker : Nat → String}

theorem Tidy.anywhere (tidy : Tidy true w) : Tidy after w := by
  cases after with
  | true => exact tidy
  | false =>
    induction w with
    | nil => trivial
    | cons p rest ih =>
      cases p with
      | slot s => exact tidy
      | text s =>
        obtain ⟨plain, _, later⟩ := tidy
        refine ⟨plain, nofun, ?_⟩
        cases empty : s.isEmpty with
        | true => exact ih (by simpa [empty] using later)
        | false => simpa [empty] using later

theorem Tidy.append (first : Tidy after w) (second : Tidy true v) : Tidy after (w ++ v) := by
  induction w generalizing after with
  | nil => exact second.anywhere
  | cons p rest ih =>
    cases p with
    | slot s => exact ih first
    | text s => exact ⟨first.1, first.2.1, ih first.2.2⟩

theorem Tidy.said {s : String} (plain : Plain s) (opens : after = true → Opens s) : Tidy after (.ofText s) :=
  ⟨plain, opens, trivial⟩

theorem Tidy.lead {s : String} (plain : Plain s) (full : s ≠ "") (opens : after = true → Opens s)
    (rest : Tidy false w) : Tidy after (.ofText s ++ w) := by
  refine ⟨plain, opens, ?_⟩
  simpa [String.isEmpty_eq_false_iff.mpr full] using rest

theorem render_text (s : String) (rest : Wording) (next : Nat) :
    (render marker next (.text s :: rest)).toList = s.toList ++ (render marker next rest).toList := by
  rw [render, String.toList_append]

theorem render_slot (s : Slot) (rest : Wording) (next : Nat) :
    (render marker next (.slot s :: rest)).toList = (marker next).toList ++ (render marker (next + 1) rest).toList := by
  rw [render, String.toList_append]

variable (each : ∀ k, IsMarker (marker k))

include each

theorem Tidy.opens (tidy : Tidy true w) (next : Nat) : Opens (w.render marker next) := by
  induction w with
  | nil => exact fun c member => by cases member
  | cons p rest ih =>
    cases p with
    | slot s =>
      intro c member
      obtain ⟨sign, tail, spelled, isSign, _⟩ := each next
      rw [render_slot, spelled] at member
      obtain rfl := Option.some.inj member
      exact not_word_of_sign isSign
    | text s =>
      obtain ⟨_, opens, later⟩ := tidy
      rw [render]
      by_cases empty : s = ""
      · subst empty
        exact (opens rfl).append (ih later)
      · exact (opens rfl).before empty _

/-- The markers that are read are those of the slots. -/
theorem Tidy.readMarkers (tidy : Tidy after w) (next : Nat) :
    readMarkers (w.render marker next).toList = (List.range' next w.slots.length).map marker := by
  induction w generalizing after next with
  | nil => rfl
  | cons p rest ih =>
    cases p with
    | text s =>
      obtain ⟨plain, _, later⟩ := tidy
      rw [render_text, readMarkers_signless plain, ih later next]
      rfl
    | slot s =>
      have later : Tidy true rest := tidy
      rw [render_slot, readMarkers_marker (each next) (later.opens each (next + 1)), ih later (next + 1)]
      rfl

omit each in
theorem Tidy.count (tidy : Tidy after w) {sign : Char} (isSign : isSign sign = true)
    (once : ∀ k, (marker k).toList.count sign = 1) (next : Nat) :
    (w.render marker next).toList.count sign = w.slots.length := by
  induction w generalizing after next with
  | nil => rfl
  | cons p rest ih =>
    cases p with
    | text s =>
      obtain ⟨plain, _, later⟩ := tidy
      have absent : sign ∉ s.toList := fun member => by simp [plain sign member] at isSign
      rw [render_text, List.count_append, List.count_eq_zero.mpr absent, ih later next, Nat.zero_add]
      rfl
    | slot s =>
      have later : Tidy true rest := tidy
      rw [render_slot, List.count_append, once, ih later (next + 1), Nat.add_comm]
      rfl

end Wording

/-! ### Texts in the place of slots -/

namespace Piece

def fill (texts : Slot → String) : Piece → Piece
  | .text s => .text s
  | .slot s => .text (texts s)

end Piece

namespace Wording

def fill (texts : Slot → String) (w : Wording) : Wording := w.map (Piece.fill texts)

variable {after : Bool} {w : Wording} {marker : Nat → String} {texts : Slot → String}

theorem isBlank_fill (full : ∀ s, texts s ≠ "") (w : Wording) : (w.fill texts).isBlank = w.isBlank := by
  induction w with
  | nil => rfl
  | cons p rest ih =>
    have here : (p.fill texts).isBlank = p.isBlank := by
      cases p with
      | text s => rfl
      | slot s => exact String.isEmpty_eq_false_iff.mpr (full s)
    simp only [fill, isBlank, List.map_cons, List.all_cons, here] at ih ⊢
    rw [ih]

/-- With the text of every slot in the place of its marker, a text is the one in which the texts stand for the
slots. -/
theorem Tidy.replaceMarkers (each : ∀ k, IsMarker (marker k)) (tidy : Tidy after w) (next first : Nat) :
    replaceMarkers after (w.slots.map texts) (w.render marker next).toList =
      ((w.fill texts).render marker first).toList := by
  induction w generalizing after next with
  | nil => rfl
  | cons p rest ih =>
    cases p with
    | text s =>
      obtain ⟨plain, opens, later⟩ := tidy
      have empty : s.toList.isEmpty = s.isEmpty := by
        rw [Bool.eq_iff_iff, List.isEmpty_iff, String.toList_eq_nil_iff, String.isEmpty_iff]
      rw [render_text, replaceMarkers_signless plain opens, empty]
      show _ = (render marker first (.text s :: fill texts rest)).toList
      rw [render_text, ← ih later next]
      rfl
    | slot s =>
      have later : Tidy true rest := tidy
      rw [render_slot]
      show QueryTree.replaceMarkers after (texts s :: (slots rest).map texts) _ =
        (render marker first (.text (texts s) :: fill texts rest)).toList
      rw [replaceMarkers_marker (each next), render_text, ih later (next + 1)]

end Wording

end QueryTree
