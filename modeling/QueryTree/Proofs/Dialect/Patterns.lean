import Mathlib.Data.List.Infix
import QueryTree.Dialect.Shipped
import QueryTree.Pass.Folding
import QueryTree.Proofs.Command.Reading
import QueryTree.Proofs.Command.SharedText

/-! Tests of texts, evaluated and sent.

A test that is evaluated looks for the text it is given. One that is sent is a `LIKE`, of a pattern that the database
puts together from that text and `%`. What is found is always matched, and as long as the text holds no wildcard nothing
else is. Of a text with a wildcard the database makes a pattern, so it matches more.
-/

set_option autoImplicit false

namespace QueryTree

/-! ### Patterns -/

namespace Text

/-- What `LIKE` decides, case-sensitive and without an escape: `%` stands for any characters, `_` for any one. -/
def likes : List Char → List Char → Bool
  | [], s => s.isEmpty
  | c :: p, s =>
    if c = '%' then s.tails.any (likes p)
    else match s with
      | [] => false
      | a :: rest => (c = '_' || c = a) && likes p rest

def isWildcard (c : Char) : Bool := c = '%' || c = '_'

variable {c : Char} {p q s : List Char}

theorem likes_nil : likes [] s = true ↔ s = [] := List.isEmpty_iff

theorem likes_percent : likes ('%' :: p) s = true ↔ ∃ t u, s = t ++ u ∧ likes p u = true := by
  simp only [likes, if_true, List.any_eq_true, List.mem_tails]
  constructor
  · rintro ⟨u, ⟨t, rfl⟩, matched⟩
    exact ⟨t, u, rfl, matched⟩
  · rintro ⟨t, u, rfl, matched⟩
    exact ⟨u, ⟨t, rfl⟩, matched⟩

theorem likes_one (notPercent : c ≠ '%') :
    likes (c :: p) s = true ↔ ∃ a rest, s = a :: rest ∧ (c = '_' ∨ c = a) ∧ likes p rest = true := by
  cases s with
  | nil => simp [likes, notPercent]
  | cons a rest => simp [likes, notPercent]

theorem likes_append : likes (p ++ q) s = true ↔ ∃ t u, s = t ++ u ∧ likes p t = true ∧ likes q u = true := by
  induction p generalizing s with
  | nil =>
    simp only [List.nil_append, likes_nil]
    constructor
    · intro matched
      exact ⟨[], s, rfl, rfl, matched⟩
    · rintro ⟨_, u, rfl, rfl, matched⟩
      exact matched
  | cons c p ih =>
    -- Only the percent sign takes a share of the text of its own choosing, and that share goes to the first half.
    by_cases percent : c = '%'
    · subst percent
      simp only [List.cons_append, likes_percent, ih]
      constructor
      · rintro ⟨any, _, rfl, t, u, rfl, first, second⟩
        exact ⟨any ++ t, u, by simp, ⟨any, t, rfl, first⟩, second⟩
      · rintro ⟨_, u, rfl, ⟨any, t, rfl, first⟩, second⟩
        exact ⟨any, t ++ u, by simp, t, u, rfl, first, second⟩
    · simp only [List.cons_append, likes_one percent, ih]
      constructor
      · rintro ⟨a, _, rfl, one, t, u, rfl, first, second⟩
        exact ⟨a :: t, u, rfl, ⟨a, t, rfl, one, first⟩, second⟩
      · rintro ⟨_, u, rfl, ⟨a, t, rfl, one, first⟩, second⟩
        exact ⟨a, t ++ u, rfl, one, t, u, rfl, first, second⟩

theorem likes_anything (s : List Char) : likes ['%'] s = true :=
  likes_percent.mpr ⟨s, [], by simp, rfl⟩

theorem likes_self (p : List Char) : likes p p = true := by
  induction p with
  | nil => rfl
  | cons c p ih =>
    by_cases percent : c = '%'
    · subst percent
      exact likes_percent.mpr ⟨['%'], p, rfl, ih⟩
    · exact (likes_one percent).mpr ⟨c, p, rfl, .inr rfl, ih⟩

/-- Without wildcards a pattern is matched by itself alone. -/
theorem likes_plain (plain : ∀ c ∈ p, isWildcard c = false) : likes p s = true ↔ s = p := by
  induction p generalizing s with
  | nil => exact likes_nil
  | cons c p ih =>
    obtain ⟨here, later⟩ := List.forall_mem_cons.mp plain
    obtain ⟨notPercent, notUnderscore⟩ : c ≠ '%' ∧ c ≠ '_' := by simpa [isWildcard] using here
    rw [likes_one notPercent]
    constructor
    · rintro ⟨a, rest, rfl, one, matched⟩
      obtain rfl := one.resolve_left notUnderscore
      rw [(ih later).mp matched]
    · rintro rfl
      exact ⟨c, p, rfl, .inr rfl, (ih later).mpr rfl⟩

/-- A text without wildcards that matches the pattern. -/
def sample (p : List Char) : List Char :=
  p.filterMap fun c => if c = '%' then none else if c = '_' then some 'x' else some c

theorem likes_sample (p : List Char) : likes p (sample p) = true := by
  induction p with
  | nil => rfl
  | cons c p ih =>
    by_cases percent : c = '%'
    · subst percent
      exact likes_percent.mpr ⟨[], sample p, by simp [sample], ih⟩
    · by_cases underscore : c = '_'
      · exact (likes_one percent).mpr ⟨'x', sample p, by simp [sample, underscore], .inl underscore, ih⟩
      · exact (likes_one percent).mpr ⟨c, sample p, by simp [sample, percent, underscore], .inr rfl, ih⟩

theorem sample_plain : ∀ c ∈ sample p, isWildcard c = false := by
  intro c member
  obtain ⟨d, -, taken⟩ := List.mem_filterMap.mp member
  split at taken
  · cases taken
  · rename_i notPercent
    split at taken
    · cases taken
      rfl
    · rename_i notUnderscore
      cases taken
      simp [isWildcard, notPercent, notUnderscore]

theorem contains_iff : contains p s = true ↔ p <:+: s := by
  induction s with
  | nil => simp [contains]
  | cons c s ih => rw [contains, Bool.or_eq_true, List.isPrefixOf_iff_prefix, ih, List.infix_cons_iff]

end Text

/-! ### Tests -/

/-- A routine that looks for one text in another. -/
inductive TextTest where
  | starts
  | ends
  | contains
  deriving DecidableEq, Repr

/-- Of what a pattern is put together. -/
inductive PatternPart where
  | anything
  | given
  deriving DecidableEq, Repr

namespace TextTest

open Text

def routine : TextTest → Routine
  | .starts => .startsWith
  | .ends => .endsWith
  | .contains => .containsString

def parts : TextTest → List PatternPart
  | .starts => [.given, .anything]
  | .ends => [.anything, .given]
  | .contains => [.anything, .given, .anything]

/-- The pattern that a text is matched with when `p` is looked for. -/
def pattern (test : TextTest) (p : List Char) : List Char :=
  test.parts.flatMap fun
    | .anything => ['%']
    | .given => p

/-- Where the test looks. -/
def Finds : TextTest → List Char → List Char → Prop
  | .starts, p, s => p <+: s
  | .ends, p, s => p <:+ s
  | .contains, p, s => p <:+: s

def outcome : TextTest → List Char → List Char → Bool
  | .starts, p, s => p.isPrefixOf s
  | .ends, p, s => p.isSuffixOf s
  | .contains, p, s => Text.contains p s

theorem evaluate (test : TextTest) (s p : String) :
    test.routine.evaluate? [.text s, .text p] = some (.bool (test.outcome p.toList s.toList)) := by
  cases test <;> rfl

variable {test : TextTest} {p s : List Char}

theorem outcome_iff : test.outcome p s = true ↔ test.Finds p s := by
  cases test with
  | starts => exact List.isPrefixOf_iff_prefix
  | ends => exact List.isSuffixOf_iff_suffix
  | contains => exact contains_iff

/-- Instead of the text itself, a text that the pattern matches is looked for. -/
theorem likes_pattern : likes (test.pattern p) s = true ↔ ∃ part, test.Finds part s ∧ likes p part = true := by
  cases test with
  | starts =>
    simp only [pattern, parts, List.flatMap_cons, List.flatMap_nil, List.append_nil, likes_append, likes_anything,
      and_true, Finds]
    constructor
    · rintro ⟨part, rest, rfl, matched⟩
      exact ⟨part, ⟨rest, rfl⟩, matched⟩
    · rintro ⟨part, ⟨rest, rfl⟩, matched⟩
      exact ⟨part, rest, rfl, matched⟩
  | ends =>
    simp only [pattern, parts, List.flatMap_cons, List.flatMap_nil, List.append_nil, likes_append, likes_anything,
      true_and, Finds]
    constructor
    · rintro ⟨rest, part, rfl, matched⟩
      exact ⟨part, ⟨rest, rfl⟩, matched⟩
    · rintro ⟨part, ⟨rest, rfl⟩, matched⟩
      exact ⟨rest, part, rfl, matched⟩
  | contains =>
    simp only [pattern, parts, List.flatMap_cons, List.flatMap_nil, List.append_nil, likes_append, likes_anything,
      true_and, and_true, Finds]
    constructor
    · rintro ⟨before, _, rfl, part, after, rfl, matched⟩
      exact ⟨part, ⟨before, after, by simp⟩, matched⟩
    · rintro ⟨part, ⟨before, after, rfl⟩, matched⟩
      exact ⟨before, part ++ after, by simp, part, after, rfl, matched⟩

theorem Finds.subset {part : List Char} (finds : test.Finds part s) : part ⊆ s := by
  cases test with
  | starts => exact List.IsPrefix.subset finds
  | ends => exact List.IsSuffix.subset finds
  | contains => exact List.IsInfix.subset finds

/-- What is evaluated to true is matched. -/
theorem likes_ofOutcome (found : test.outcome p s = true) : likes (test.pattern p) s = true :=
  likes_pattern.mpr ⟨p, outcome_iff.mp found, likes_self p⟩

theorem outcome_plain (plain : ∀ c ∈ p, isWildcard c = false) (s : List Char) :
    test.outcome p s = likes (test.pattern p) s := by
  rw [Bool.eq_iff_iff, likes_pattern, outcome_iff]
  constructor
  · intro finds
    exact ⟨p, finds, likes_self p⟩
  · rintro ⟨part, finds, matched⟩
    rwa [← (likes_plain plain).mp matched]

/-- The outcomes are the same for every text exactly when there is no wildcard in what is looked for. -/
theorem outcome_iff_plain (test : TextTest) (p : List Char) :
    (∀ s, test.outcome p s = likes (test.pattern p) s) ↔ ∀ c ∈ p, isWildcard c = false := by
  constructor
  · intro same c member
    -- A text without wildcards matches the pattern, so nothing with one is found in it.
    have whole : test.Finds (sample p) (sample p) := by
      cases test with
      | starts => exact List.prefix_refl _
      | ends => exact List.suffix_refl _
      | contains => exact List.infix_refl _
    have matched := likes_pattern.mpr ⟨sample p, whole, likes_sample p⟩
    rw [← same] at matched
    exact sample_plain c ((outcome_iff.mp matched).subset member)
  · exact outcome_plain

theorem starts_underscore : TextTest.starts.routine.evaluate? [.text "abc", .text "_"] = some (.bool false) ∧
    likes (TextTest.starts.pattern "_".toList) "abc".toList = true := by
  refine ⟨rfl, likes_pattern.mpr ⟨['a'], ⟨['b', 'c'], rfl⟩, rfl⟩⟩

end TextTest

/-! ### The pattern as it is written -/

def Shipped.concatenation : Shipped → String
  | .postgres | .sqlite => "||"
  | .sqlServer _ => "+"

def PatternPart.wording (given : Wording) : PatternPart → Wording
  | .anything => .ofText "'%'"
  | .given => given

namespace TextTest

/-- The pattern as an expression over what is looked for. -/
def patternText (test : TextTest) (sign : String) (given : Wording) : Wording :=
  .joined (" " ++ sign ++ " ") (test.parts.map (·.wording given))

/-- An operator between two operands, the second of which is put between affixes. -/
theorem spelledCall_operator {d : Dialect} {s : RoutineSpelling} (operator : s.isOperator = true)
    {subject sought : Spelled} {p : Place} {w v : Wording} (first : d.operand subject p = .ok w)
    (second : d.operand sought p = .ok v) :
    d.spelledCall s [subject, sought] p =
      .ok (w ++ (.ofText (" " ++ s.name ++ " " ++ s.opening) ++ v ++ .ofText s.closing ++ [])) := by
  unfold Dialect.spelledCall Dialect.operatorTail
  simp only [operator, if_true, first, second]
  rfl

/-- Every dialect writes a `LIKE` of the pattern, whatever stands for the two texts. -/
theorem callExpr_written (d : Shipped) (test : TextTest) {subject sought : Spelled} (type : DataType) {p : Place}
    {w v : Wording} (first : d.dialect.operand subject p = .ok w) (second : d.dialect.operand sought p = .ok v) :
    ∃ u, d.dialect.callExpr test.routine [subject, sought] type p = .ok u ∧ u.slots = w.slots ++ v.slots ∧
      ∀ marker next, u.render marker next =
        (w ++ .ofText " LIKE " ++ (test.patternText d.concatenation v).parenthesized).render marker next := by
  have slots (opening closing : String) :
      Wording.slots (w ++ (.ofText opening ++ v ++ .ofText closing ++ [])) = w.slots ++ v.slots := by
    simp [Wording.slots, Wording.ofText, Piece.slot?, List.filterMap_cons]
  cases d <;> cases test <;> refine ⟨_, spelledCall_operator rfl first second, slots _ _, fun marker next => ?_⟩ <;>
    apply String.toList_inj.mp <;>
    simp [Wording.render_append, Wording.ofText, Wording.render, Wording.slots, Piece.slot?, patternText, parts,
      PatternPart.wording, Wording.joined, Wording.parenthesized, Shipped.concatenation]

theorem literals_folded (test : TextTest) (s p : String) (type : DataType) :
    Pass.foldLiteral (.call test.routine [.literal (.text s), .literal (.text p)] type) =
      .literal (.bool (test.outcome p.toList s.toList)) := by
  have folded : Pass.evaluate? (.call test.routine [.literal (.text s), .literal (.text p)] type) =
      some (.bool (test.outcome p.toList s.toList)) := test.evaluate s p
  simp only [Pass.foldLiteral, folded]
  rfl

/-- Where it is sent, the text is matched with the pattern of the second parameter. -/
theorem literals_written (d : Shipped) (test : TextTest) (s p : String) (type : DataType) :
    ∃ f, d.dialect.format (.call test.routine [.literal (.text s), .literal (.text p)] type) = .ok f ∧
      f.slots = [⟨.literal (.text s), .text⟩, ⟨.literal (.text p), .text⟩] ∧
      f.text = d.dialect.marker 0 ++ " LIKE " ++ (test.patternText d.concatenation
        [.slot ⟨.literal (.text p), .text⟩]).parenthesized.render d.dialect.marker 1 := by
  have operand (t : String) : d.dialect.operand (d.dialect.spell (.literal (.text t))) {} =
      .ok [.slot ⟨.literal (.text t), .text⟩] := by
    cases d <;> rfl
  obtain ⟨u, written, slots, rendered⟩ := callExpr_written d test type (operand s) (operand p)
  have spelled : d.dialect.wording (.call test.routine [.literal (.text s), .literal (.text p)] type) = .ok u := by
    rw [Dialect.wording, Dialect.spell_mk]
    exact written
  refine ⟨⟨u.render d.dialect.marker 0, Wording.slots u⟩, ?_, slots, ?_⟩
  · rw [Dialect.format_single, spelled]
    · rfl
    · intro listed
      cases listed
  · rw [rendered]
    simp only [List.cons_append, List.nil_append, Wording.ofText, Wording.render, String.append_assoc]

end TextTest

end QueryTree
