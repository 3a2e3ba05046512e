import Mathlib.Data.List.Basic
import QueryTree.Dialect.Basic

/-! Reading what was quoted.

A quotation ends at the first closing quote that is not doubled, and a doubled one stands for itself. So whatever is
quoted is read back as it was, and the quotation ends where it was written to end. Nothing else is read as a quotation.
-/

set_option autoImplicit false

namespace QueryTree.Quote

/-- The rest of a quotation, and what follows it. -/
def readRest (closing : Char) : List Char → Option (List Char × List Char)
  | [] => none
  | c :: rest =>
    if c ≠ closing then (readRest closing rest).map fun (inside, left) => (c :: inside, left)
    else
      match rest with
      | [] => some ([], [])
      | next :: after =>
        if next = closing then (readRest closing after).map fun (inside, left) => (c :: inside, left)
        else some ([], rest)

/-- What stands between the quotes that a text starts with, and what follows them. -/
def read (q : Quote) (chars : List Char) : Option (String × List Char) := do
  let chars ← chars.dropPrefix? q.opening.toList
  let (inside, left) ← readRest q.closing chars
  return (.ofList inside, left)

variable {closing : Char} {chars inside rest : List Char}

theorem readRest_other {c : Char} (other : c ≠ closing) :
    readRest closing (c :: chars) = (readRest closing chars).map fun (inside, left) => (c :: inside, left) := by
  cases chars <;> simp [readRest, other]

theorem readRest_doubled : readRest closing (closing :: closing :: chars) =
    (readRest closing chars).map fun (inside, left) => (closing :: inside, left) := by
  simp [readRest]

theorem readRest_end (apart : rest.head? ≠ some closing) : readRest closing (closing :: rest) = some ([], rest) := by
  cases rest with
  | nil => simp [readRest]
  | cons next after =>
    have other : next ≠ closing := by simpa using apart
    simp [readRest, other]

theorem double_free (free : closing ∉ chars) : double closing chars = chars := by
  induction chars with
  | nil => rfl
  | cons c chars ih =>
    obtain ⟨here, later⟩ : closing ≠ c ∧ closing ∉ chars := by simpa using free
    rw [double, if_neg (Ne.symm here), ih later]

/-- A quotation is read back as it was before its quotes were doubled. -/
theorem readRest_double (apart : rest.head? ≠ some closing) :
    readRest closing (double closing chars ++ closing :: rest) = some (chars, rest) := by
  induction chars with
  | nil => exact readRest_end apart
  | cons c chars ih =>
    unfold double
    split
    next same =>
      subst same
      rw [List.cons_append, List.cons_append, readRest_doubled, ih]
      rfl
    next other =>
      rw [List.cons_append, readRest_other other, ih]
      rfl

theorem toList_apply (q : Quote) (s : String) :
    (q.apply s).toList = q.opening.toList ++ (double q.closing s.toList ++ [q.closing]) := by
  simp [apply, Char.toString]

theorem read_apply (q : Quote) (s : String) (apart : rest.head? ≠ some q.closing) :
    q.read ((q.apply s).toList ++ rest) = some (s, rest) := by
  have opened : ((q.apply s).toList ++ rest).dropPrefix? q.opening.toList =
      some (double q.closing s.toList ++ q.closing :: rest) := by
    rw [toList_apply, List.append_assoc, List.append_assoc]
    exact List.dropPrefix?_append_of_beq _ (beq_self_eq_true _)
  rw [read, opened]
  change (readRest q.closing _ >>= _) = _
  rw [readRest_double apart]
  change some (String.ofList s.toList, rest) = _
  rw [String.ofList_toList]

theorem readRest_some (found : readRest closing chars = some (inside, rest)) :
    chars = double closing inside ++ closing :: rest ∧ rest.head? ≠ some closing := by
  fun_induction readRest closing chars generalizing inside with
  | case1 => cases found
  | case2 c chars other ih =>
    obtain ⟨⟨later, left⟩, found, same⟩ := Option.map_eq_some_iff.mp found
    cases same
    obtain ⟨written, apart⟩ := ih found
    exact ⟨by rw [double, if_neg other, List.cons_append, written], apart⟩
  -- The closing quote, at the end of the text or before another character.
  | case3 c same =>
    cases found
    exact ⟨by rw [not_not.mp same]; rfl, by simp⟩
  | case4 c same chars ih =>
    -- A doubled quote, which stands for itself.
    obtain ⟨⟨later, left⟩, found, same'⟩ := Option.map_eq_some_iff.mp found
    cases same'
    obtain ⟨written, apart⟩ := ih found
    have doubled : c = closing := not_not.mp same
    subst doubled
    exact ⟨by rw [double, if_pos rfl, List.cons_append, List.cons_append, ← written], apart⟩
  | case5 c same next chars other =>
    cases found
    exact ⟨by rw [not_not.mp same]; rfl, by simpa using other⟩

theorem read_iff (q : Quote) (s : String) :
    q.read chars = some (s, rest) ↔ chars = (q.apply s).toList ++ rest ∧ rest.head? ≠ some q.closing := by
  constructor
  · intro found
    rw [read, Option.bind_eq_bind, Option.bind_eq_some_iff] at found
    obtain ⟨opened, atOpening, found⟩ := found
    rw [Option.bind_eq_bind, Option.bind_eq_some_iff] at found
    obtain ⟨⟨inside, left⟩, found, same⟩ := found
    cases same
    obtain ⟨written, apart⟩ := readRest_some found
    obtain ⟨opening, whole, same⟩ := List.dropPrefix?_eq_some_iff.mp atOpening
    refine ⟨?_, apart⟩
    rw [whole, eq_of_beq same, written, toList_apply, String.toList_ofList, List.append_assoc, List.append_assoc]
    rfl
  · rintro ⟨rfl, apart⟩
    exact read_apply q s apart

end QueryTree.Quote
