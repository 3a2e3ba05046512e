import Mathlib.Tactic.SplitIfs
import QueryTree.Proofs.Command.Reading

/-! Operators read back from a text.

A text is read from left to right. Quotes hide what stands in them, and parentheses and `CASE` hold together what they
enclose. An operator outside of them binds by its precedence, so a text with one may be taken apart by the operators
around it, and a text without one stays whole wherever it is put.
-/

set_option autoImplicit false

namespace QueryTree

/-- What a word or another character is to a reader. -/
inductive Token where
  | opening
  | closing
  | operator
  /-- Begins a quotation, which a character ends. -/
  | quote (closing : Char)
  | other
  deriving DecidableEq, Repr

namespace Token

/-- Keywords are read in any case. -/
def ofWord (word : List Char) : Token :=
  let word := word.map Char.toUpper
  if word = ['C', 'A', 'S', 'E'] then .opening
  else if word = ['E', 'N', 'D'] then .closing
  else if word ∈ [['A', 'N', 'D'], ['O', 'R'], ['N', 'O', 'T'], ['I', 'S'], ['I', 'N'], ['L', 'I', 'K', 'E']] then
    .operator
  else .other

/-- A closing bracket that closes nothing opens: so it goes on behind a quote that is written twice. -/
def ofSign (c : Char) : Token :=
  if c = '(' then .opening
  else if c = ')' then .closing
  else if c = '[' then .quote ']'
  else if c ∈ ['\'', '"', ']'] then .quote c
  else if c ∈ ['=', '<', '>', '+', '-', '*', '/', '%', '|'] then .operator
  else .other

end Token

/-- How far a text has been read. -/
structure Reading where
  /-- Inside a quotation, the character that ends it. -/
  quote : Option Char := none
  /-- The word that is being read. -/
  word : List Char := []
  /-- The parentheses and `CASE`s that are open. -/
  depth : Nat := 0
  /-- What was found outside of them, the last first. -/
  found : List (List Char) := []
  deriving DecidableEq, Repr

namespace Reading

/-- Operators are found where nothing is open, and so is what then closes. -/
def take (r : Reading) (text : List Char) : Token → Reading
  | .opening => { r with depth := r.depth + 1 }
  | .closing =>
    match r.depth with
    | 0 => { r with found := text :: r.found }
    | depth + 1 => { r with depth := depth }
  | .operator =>
    match r.depth with
    | 0 => { r with found := text :: r.found }
    | _ + 1 => r
  | .quote closing => { r with quote := some closing }
  | .other => r

/-- Past the end of a word. -/
def settle (r : Reading) : Reading := { r with word := [] }.take r.word (.ofWord r.word)

def step (r : Reading) (c : Char) : Reading :=
  match r.quote with
  | some closing => if c = closing then { r with quote := none } else r
  | none => if isWord c then { r with word := r.word ++ [c] } else r.settle.take [c] (.ofSign c)

def read (r : Reading) (s : List Char) : Reading := s.foldl step r

/-- Between two words, inside parentheses. -/
def inside (depth : Nat) : Reading := { depth := depth }

end Reading

/-- The operators of a text outside of quotes, parentheses and `CASE`. -/
def operators (s : String) : List String :=
  ((({} : Reading).read s.toList).settle.found.map String.ofList).reverse

namespace Reading

variable {r : Reading} {s t : List Char}

theorem read_append : r.read (s ++ t) = (r.read s).read t := List.foldl_append

/-- The same further inside, where more was found before. -/
def lift (depth : Nat) (older : List (List Char)) (r : Reading) : Reading :=
  { r with depth := depth + r.depth, found := r.found ++ older }

theorem take_lift {text : List Char} {token : Token} (silent : (r.take text token).found = []) (depth : Nat)
    (older : List (List Char)) :
    r.found = [] ∧ (r.lift depth older).take text token = (r.take text token).lift depth older := by
  obtain ⟨quote, word, ground, found⟩ := r
  cases token with
  | opening | quote | other => exact ⟨silent, rfl⟩
  | closing | operator =>
    cases ground with
    | zero => cases silent
    | succ => exact ⟨silent, rfl⟩

theorem settle_lift (silent : r.settle.found = []) (depth : Nat) (older : List (List Char)) :
    r.found = [] ∧ (r.lift depth older).settle = r.settle.lift depth older :=
  take_lift (r := { r with word := [] }) silent depth older

theorem step_lift {c : Char} (silent : (r.step c).found = []) (depth : Nat) (older : List (List Char)) :
    r.found = [] ∧ (r.lift depth older).step c = (r.step c).lift depth older := by
  obtain ⟨quote, word, ground, found⟩ := r
  -- A sign is taken after the word before it, so two steps find nothing where one character finds nothing.
  cases quote with
  | some closing =>
    by_cases ends : c = closing
    · simp only [step, ends, if_true] at silent
      exact ⟨silent, by simp only [step, lift, ends, if_true]⟩
    · simp only [step, ends, if_false] at silent
      exact ⟨silent, by simp only [step, lift, ends, if_false]⟩
  | none =>
    by_cases letter : isWord c = true
    · simp only [step, letter, if_true] at silent
      exact ⟨silent, by simp only [step, lift, letter, if_true]⟩
    · simp only [step, letter] at silent
      obtain ⟨settled, taken⟩ := take_lift silent depth older
      obtain ⟨nothing, before⟩ := settle_lift settled depth older
      refine ⟨nothing, ?_⟩
      simp only [step, letter]
      exact (congrArg (take · [c] (.ofSign c)) before).trans taken

theorem read_lift (silent : (r.read s).found = []) (depth : Nat) (older : List (List Char)) :
    r.found = [] ∧ (r.lift depth older).read s = (r.read s).lift depth older := by
  induction s generalizing r with
  | nil => exact ⟨silent, rfl⟩
  | cons c s ih =>
    obtain ⟨stepped, later⟩ := ih silent
    obtain ⟨nothing, here⟩ := step_lift stepped depth older
    refine ⟨nothing, ?_⟩
    show ((r.lift depth older).step c).read s = _
    rw [here]
    exact later

theorem settle_quote : r.settle.quote = r.quote := by
  unfold settle Token.ofWord
  dsimp only
  split_ifs
  · rfl
  · cases r.depth <;> rfl
  · cases r.depth <;> rfl
  · rfl

theorem settle_inside (depth : Nat) : (inside depth).settle = inside depth := rfl

theorem read_opens {chars : List Char} (opens : ∀ c ∈ chars.head?, isWord c = false) {a : Nat}
    (settled : r.settle = inside a) :
    (r.read chars).settle = ((inside a).read chars).settle ∧ (chars ≠ [] → r.read chars = (inside a).read chars) := by
  cases chars with
  | nil => exact ⟨settled, fun full => absurd rfl full⟩
  | cons c rest =>
    have unquoted : r.quote = none := by rw [← settle_quote, settled]; rfl
    have letter : isWord c = false := opens c rfl
    have same : r.step c = (inside a).step c := by
      simp only [step, unquoted, letter, settled]
      rfl
    have later : r.read (c :: rest) = (inside a).read (c :: rest) := congrArg (·.read rest) same
    exact ⟨congrArg settle later, fun _ => later⟩

end Reading

/-! ### Texts in which nothing is found -/

namespace Text

open Reading

/-- Read inside `a` parentheses the text ends inside `b`, and nothing is found in it. -/
def Takes (s : String) (a b : Nat) : Prop := ((inside a).read s.toList).settle = inside b

/-- And it does not end in a word. -/
def Leads (s : String) (a b : Nat) : Prop := (inside a).read s.toList = inside b

instance (s : String) (a b : Nat) : Decidable (Takes s a b) := inferInstanceAs (Decidable (_ = _))

/-- A text that may stand right behind a word. -/
structure Ends (s : String) (a b : Nat) : Prop where
  opens : Opens s
  takes : Takes s a b

/-- A text that may stand between two words. -/
structure Joins (s : String) (a b : Nat) : Prop where
  opens : Opens s
  leads : Leads s a b
  full : s ≠ ""

variable {s t : String} {a b c : Nat}

theorem operators_takes (takes : Takes s 0 a) : operators s = [] := by
  have silent : ((inside 0).read s.toList).settle.found = [] := by rw [takes]; rfl
  exact congrArg (fun found => (found.map String.ofList).reverse) silent

/-- Between texts in which nothing is found, what stands in the middle is found. -/
theorem operators_between {middle : String} (found : List (List Char)) (first : Takes s 0 0) (opens : Opens middle)
    (full : middle ≠ "") (middleRead : (inside 0).read middle.toList = (inside 0).lift 0 found) (last : Takes t 0 0) :
    operators (s ++ middle ++ t) = (found.map String.ofList).reverse := by
  have behind := (read_opens (opens.before full t) first).1
  -- Behind the middle the reader goes on as from the start, with what was found kept aside.
  have silent : ((inside 0).read t.toList).settle.found = [] := by rw [last]; rfl
  obtain ⟨nothing, settled⟩ := settle_lift silent 0 found
  have whole : ((inside 0).read (s ++ middle ++ t).toList).settle = (inside 0).lift 0 found := by
    rw [String.append_assoc, String.toList_append, read_append, behind, String.toList_append, read_append, middleRead,
      (read_lift nothing 0 found).2, settled, last]
  exact congrArg (fun r => (r.found.map String.ofList).reverse) whole

theorem Leads.takes (leads : Leads s a b) : Takes s a b := (congrArg settle leads).trans (settle_inside b)

theorem Leads.deeper (leads : Leads s a b) (k : Nat) : Leads s (k + a) (k + b) := by
  have silent : ((inside a).read s.toList).found = [] := by rw [leads]; rfl
  have lifted := (read_lift silent k []).2
  rw [leads] at lifted
  exact lifted

theorem Takes.deeper (takes : Takes s a b) (k : Nat) : Takes s (k + a) (k + b) := by
  have silent : ((inside a).read s.toList).settle.found = [] := by rw [takes]; rfl
  obtain ⟨nothing, settled⟩ := settle_lift silent k []
  rw [takes, ← (read_lift nothing k []).2] at settled
  exact settled

theorem Leads.append (first : Leads s a b) (second : Leads t b c) : Leads (s ++ t) a c := by
  rw [Leads, String.toList_append, read_append, first]
  exact second

theorem Leads.before (first : Leads s a b) (rest : Takes t b c) : Takes (s ++ t) a c := by
  rw [Takes, String.toList_append, read_append, first]
  exact rest

theorem Takes.before (first : Takes s a b) (opens : Opens t) (rest : Takes t b c) : Takes (s ++ t) a c := by
  rw [Takes, String.toList_append, read_append, (read_opens opens first).1]
  exact rest

theorem Takes.joined (first : Takes s a b) (rest : Joins t b c) : Leads (s ++ t) a c := by
  have full : t.toList ≠ [] := fun empty => rest.full (String.toList_eq_nil_iff.mp empty)
  rw [Leads, String.toList_append, read_append, (read_opens rest.opens first).2 full]
  exact rest.leads

theorem Joins.append (first : Joins s a b) (rest : Leads t b c) : Joins (s ++ t) a c := by
  refine ⟨first.opens.before first.full t, first.leads.append rest, fun empty => first.full ?_⟩
  have nothing := congrArg String.toList empty
  rw [String.toList_append] at nothing
  exact String.toList_eq_nil_iff.mp (List.append_eq_nil_iff.mp nothing).1

theorem Joins.deeper (joins : Joins s a b) (k : Nat) : Joins s (k + a) (k + b) :=
  ⟨joins.opens, joins.leads.deeper k, joins.full⟩

theorem Ends.deeper (ends : Ends s a b) (k : Nat) : Ends s (k + a) (k + b) := ⟨ends.opens, ends.takes.deeper k⟩

theorem Joins.ends (joins : Joins s a b) : Ends s a b := ⟨joins.opens, joins.leads.takes⟩

theorem Joins.before (first : Joins s a b) (rest : Takes t b c) : Ends (s ++ t) a c :=
  ⟨first.opens.before first.full t, first.leads.before rest⟩

theorem Ends.before (first : Ends s a b) (rest : Ends t b c) : Ends (s ++ t) a c :=
  ⟨first.opens.append rest.opens, first.takes.before rest.opens rest.takes⟩

/-! For texts that are given, the reading is computed. -/

theorem leads_text (chars : List Char) (read : (inside a).read chars = inside b) :
    Leads (String.ofList chars) a b := by
  rw [Leads, String.toList_ofList]
  exact read

theorem takes_text (chars : List Char) (read : ((inside a).read chars).settle = inside b) :
    Takes (String.ofList chars) a b := by
  rw [Takes, String.toList_ofList]
  exact read

theorem ends_text (first : Char) (rest : List Char)
    (notWord : isWord first = false) (read : ((inside a).read (first :: rest)).settle = inside b) :
    Ends (String.ofList (first :: rest)) a b := ⟨opens_text first rest notWord, takes_text _ read⟩

theorem joins_text (first : Char) (rest : List Char)
    (notWord : isWord first = false) (read : (inside a).read (first :: rest) = inside b) :
    Joins (String.ofList (first :: rest)) a b where
  opens := opens_text first rest notWord
  leads := leads_text _ read
  full empty := by
    have chars := congrArg String.toList empty
    rw [String.toList_ofList] at chars
    cases chars

theorem openingParenthesis : Joins "(" 0 1 := joins_text _ _ rfl rfl

theorem closingParenthesis : Joins ")" 1 0 := joins_text _ _ rfl rfl

theorem Takes.spaced (takes : Takes s a b) : Joins (" " ++ s ++ " ") a b := by
  have blank (k : Nat) : Joins " " k k := (joins_text _ _ rfl rfl : Joins " " 0 0).deeper k
  have first : Joins " " a a := blank a
  refine ⟨?_, (first.leads.before takes).joined (blank b), ?_⟩
  · rw [String.append_assoc]
    exact first.opens.before first.full _
  · intro empty
    have nothing := congrArg String.toList empty
    rw [String.toList_append] at nothing
    exact absurd (String.toList_eq_nil_iff.mp (List.append_eq_nil_iff.mp nothing).2) (blank b).full

end Text

/-! ### Wordings in which nothing is found -/

namespace Wording

open Text

variable (marker : Nat → String)

/-- Whatever the number of its first slot. -/
def Takes (w : Wording) (a b : Nat) : Prop := ∀ next, Text.Takes (w.render marker next) a b

/-- May stand right behind a word. -/
def Opens (w : Wording) : Prop := ∀ next, QueryTree.Opens (w.render marker next)

variable {marker} {w v : Wording} {s : String} {a b c d : Nat}

theorem takes_nil : Takes marker [] a a := fun _ => Leads.takes (rfl : Leads "" a a)

theorem opens_nil : Opens marker [] := by
  intro next c member
  simp [render] at member

theorem takes_ofText (takes : Text.Takes s a b) : (ofText s).Takes marker a b := by
  intro next
  rw [render_ofText]
  exact takes

theorem takes_slotOf (takes : ∀ n, Text.Takes (marker n) 0 0) (source : SlotSource) (type : DataType) (a : Nat) :
    (slotOf source type).Takes marker a a := by
  intro next
  have written : (slotOf source type).render marker next = marker next := String.append_empty
  rw [written]
  exact (takes next).deeper a

theorem Takes.deeper (takes : w.Takes marker a b) (k : Nat) : w.Takes marker (k + a) (k + b) :=
  fun next => (takes next).deeper k

theorem takes_ite {p : Prop} [Decidable p] (yes : w.Takes marker a b) (no : v.Takes marker a b) :
    (if p then w else v).Takes marker a b := by
  split
  · exact yes
  · exact no

theorem Takes.append (first : w.Takes marker a b) (opens : v.Opens marker) (rest : v.Takes marker b c) :
    (w ++ v).Takes marker a c := by
  intro next
  rw [render_append]
  exact (first next).before (opens _) (rest _)

theorem Takes.lead (first : Leads s a b) (rest : w.Takes marker b c) : (ofText s ++ w).Takes marker a c := by
  intro next
  rw [render_append, render_ofText]
  exact first.before (rest _)

theorem opens_ofText (opens : QueryTree.Opens s) : (ofText s).Opens marker := by
  intro next
  rw [render_ofText]
  exact opens

theorem Opens.lead (opens : QueryTree.Opens s) (full : s ≠ "") : (ofText s ++ w).Opens marker := by
  intro next
  rw [render_append, render_ofText]
  exact opens.before full _

theorem Takes.close (first : w.Takes marker a b) (last : Ends s b c) : (w ++ ofText s).Takes marker a c :=
  first.append (opens_ofText last.opens) (takes_ofText last.takes)

theorem Takes.between (first : w.Takes marker a b) (middle : Joins s b c) (rest : v.Takes marker c d) :
    (w ++ ofText s ++ v).Takes marker a d := by
  rw [List.append_assoc]
  exact first.append (.lead middle.opens middle.full) (.lead middle.leads rest)

theorem Takes.parenthesized (takes : w.Takes marker (a + 1) (a + 1)) : w.parenthesized.Takes marker a a := by
  have first : (ofText "(" ++ w).Takes marker a (a + 1) := .lead (openingParenthesis.leads.deeper a) takes
  exact first.close (closingParenthesis.deeper a).ends

theorem takes_joined {separator : String} {ws : List Wording} (middle : Joins separator a a)
    (each : ∀ w ∈ ws, w.Takes marker a a) : (joined separator ws).Takes marker a a := by
  induction ws with
  | nil => exact takes_nil
  | cons w ws ih =>
    obtain ⟨here, later⟩ := List.forall_mem_cons.mp each
    cases ws with
    | nil => exact here
    | cons v rest => exact here.between middle (ih later)

theorem takes_joined_empty {ws : List Wording} (each : ∀ w ∈ ws, w.Opens marker ∧ w.Takes marker a a) :
    (joined "" ws).Opens marker ∧ (joined "" ws).Takes marker a a := by
  induction ws with
  | nil => exact ⟨opens_nil, takes_nil⟩
  | cons w ws ih =>
    obtain ⟨here, later⟩ := List.forall_mem_cons.mp each
    cases ws with
    | nil => exact here
    | cons v rest =>
      obtain ⟨opens, takes⟩ := ih later
      have behind : (ofText "" ++ joined "" (v :: rest)).Opens marker ∧
          (ofText "" ++ joined "" (v :: rest)).Takes marker a a := by
        refine ⟨fun next => ?_, .lead rfl takes⟩
        rw [render_append, render_ofText, String.empty_append]
        exact opens _
      have whole : joined "" (w :: v :: rest) = w ++ (ofText "" ++ joined "" (v :: rest)) :=
        List.append_assoc ..
      rw [whole]
      refine ⟨fun next => ?_, here.2.append behind.1 behind.2⟩
      rw [render_append]
      exact (here.1 next).append (behind.1 _)

end Wording

end QueryTree
