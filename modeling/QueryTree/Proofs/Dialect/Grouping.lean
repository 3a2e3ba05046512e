import QueryTree.Dialect.Shipped
import QueryTree.Proofs.Command.Grouping
import QueryTree.Proofs.Dialect.PlainTexts

/-! The dialects at hand close what they open.

Names, texts and dates are quoted, and a quote inside is written twice, so a reader never leaves the quotation early.
Numbers and bytes are words that are no keywords. What a dialect writes around the arguments of a routine is balanced,
and a name that is an operator is one of those after which an operand is put in parentheses.
-/

set_option autoImplicit false

namespace QueryTree

open Reading Text

/-! ### Words -/

/-- The letters that a keyword begins with. -/
def keywordInitials : List Char := ['A', 'C', 'E', 'I', 'L', 'N', 'O']

theorem ofWord_other {c : Char} (rest : List Char) (initial : c.toUpper ∉ keywordInitials) :
    Token.ofWord (c :: rest) = .other := by
  simp only [keywordInitials, List.mem_cons, List.not_mem_nil, or_false, not_or] at initial
  simp [Token.ofWord, initial]

theorem read_word {chars word : List Char} {depth : Nat} (words : ∀ c ∈ chars, isWord c = true) :
    ({ word := word, depth := depth } : Reading).read chars = { word := word ++ chars, depth := depth } := by
  induction chars generalizing word with
  | nil => rw [List.append_nil]; rfl
  | cons c rest ih =>
    obtain ⟨here, later⟩ := List.forall_mem_cons.mp words
    have one : ({ word := word, depth := depth } : Reading).step c = { word := word ++ [c], depth := depth } := by
      simp only [step, here, if_true]
    show (({ word := word, depth := depth } : Reading).step c).read rest = _
    rw [one, ih later, List.append_assoc]
    rfl

theorem takes_word {c : Char} {rest : List Char} (initial : c.toUpper ∉ keywordInitials)
    (words : ∀ a ∈ c :: rest, isWord a = true) : Takes (String.ofList (c :: rest)) 0 0 := by
  refine takes_text _ ?_
  rw [inside, read_word words, settle]
  show Reading.take _ _ (Token.ofWord (c :: rest)) = _
  rw [ofWord_other rest initial]
  rfl

theorem isWord_digit {c : Char} (digit : c.isDigit = true) : isWord c = true := by
  simp [isWord, Char.isAlphanum, digit]

theorem initial_digit {c : Char} (digit : c.isDigit = true) : c.toUpper ∉ keywordInitials := by
  have digits : ∀ n < 10, (Char.ofNat (48 + n)).toUpper ∉ keywordInitials := by decide
  simp only [Char.isDigit, Bool.and_eq_true, decide_eq_true_eq, ge_iff_le, UInt32.le_iff_toNat_le] at digit
  have low : 48 ≤ c.toNat := digit.1
  have high : c.toNat ≤ 57 := digit.2
  have same := digits (c.toNat - 48) (by omega)
  rwa [Nat.add_sub_cancel' low, Char.ofNat_toNat] at same

theorem takes_digits {chars : List Char} (digits : ∀ c ∈ chars, c.isDigit = true) :
    Takes (String.ofList chars) 0 0 := by
  cases chars with
  | nil => exact takes_text [] rfl
  | cons c rest => exact takes_word (initial_digit (digits c (by simp))) fun a member => isWord_digit (digits a member)

/-! ### Values as text -/

theorem digits_toDigits {n : Nat} : ∀ c ∈ Nat.toDigits 10 n, c.isDigit = true :=
  fun _ member => Nat.isDigit_of_mem_toDigits (by decide) (by decide) member

theorem digits_zeros {n : Nat} : ∀ c ∈ List.replicate n '0', c.isDigit = true := by
  intro c member
  rw [List.eq_of_mem_replicate member]
  rfl

theorem takes_nat (n : Nat) : Takes (toString n) 0 0 := by
  rw [Nat.toString_eq_repr, Nat.repr_eq_ofList_toDigits]
  exact takes_digits digits_toDigits

theorem minus : Leads "-" 1 1 := leads_text _ rfl

theorem takes_int (n : Int) : Takes (toString n) (decide (n < 0)).toNat (decide (n < 0)).toNat := by
  cases n with
  | ofNat n =>
    have positive : decide (Int.ofNat n < 0) = false := decide_eq_false (Int.not_lt.mpr (Int.natCast_nonneg n))
    rw [positive]
    exact takes_nat n
  | negSucc n =>
    -- To a reader the minus of a negative number is an operator in front of a number.
    rw [decide_eq_true (Int.negSucc_lt_zero n)]
    exact minus.before ((takes_nat (n + 1)).deeper 1)

namespace Double

theorem takes_positional (digits : Nat) (exponent : Int) : Takes (positional digits exponent) 0 0 := by
  have point : Joins "." 0 0 := joins_text _ _ rfl rfl
  unfold positional
  split
  · refine takes_digits fun c member => ?_
    rcases List.mem_append.mp member with member | member
    · exact digits_toDigits c member
    · exact digits_zeros c member
  · have padded {k : Nat} : ∀ c ∈ List.replicate k '0' ++ Nat.toDigits 10 digits, c.isDigit = true := by
      intro c member
      rcases List.mem_append.mp member with member | member
      · exact digits_zeros c member
      · exact digits_toDigits c member
    refine ((takes_digits fun c member => ?_).joined point).before (takes_digits fun c member => ?_)
    · exact padded c (List.mem_of_mem_take member)
    · exact padded c (List.mem_of_mem_drop member)

theorem takes_render (x : Double) :
    Takes x.render (x.isNegative && !x.isNaN).toNat (x.isNegative && !x.isNaN).toNat := by
  unfold render
  split
  next nan =>
    rw [nan, Bool.not_true, Bool.and_false]
    exact takes_text _ rfl
  next number =>
    have magnitude :
        Takes (if x.isInfinite then "inf" else positional (x.shortest .up).1 (x.shortest .up).2) 0 0 := by
      split
      · exact takes_text _ rfl
      · exact takes_positional _ _
    rw [Bool.eq_false_iff.mpr number, Bool.not_false, Bool.and_true]
    show Takes (if x.isNegative then "-" ++ _ else _) _ _
    cases negative : x.isNegative with
    | true => exact minus.before (magnitude.deeper 1)
    | false => exact magnitude

end Double

theorem isWord_hexadecimal (bytes : List UInt8) : ∀ c ∈ (hexadecimal bytes).toList, isWord c = true := by
  have digit : ∀ n < 16, isWord (hexadecimal.digit n) = true := by decide
  intro c member
  rw [hexadecimal, String.toList_ofList] at member
  obtain ⟨b, _, inByte⟩ := List.mem_flatMap.mp member
  have small : b.toNat < 256 := b.toNat_lt
  simp only [List.mem_cons, List.not_mem_nil, or_false] at inByte
  rcases inByte with rfl | rfl
  · exact digit _ (by omega)
  · exact digit _ (by omega)

/-! ### Quotes -/

theorem read_quoted {quote : Char} {chars : List Char} {depth : Nat} (free : quote ∉ chars) :
    ({ quote := some quote, depth := depth } : Reading).read chars = { quote := some quote, depth := depth } := by
  induction chars with
  | nil => rfl
  | cons c rest ih =>
    obtain ⟨here, later⟩ : quote ≠ c ∧ quote ∉ rest := by simpa using free
    have one : ({ quote := some quote, depth := depth } : Reading).step c = { quote := some quote, depth := depth } :=
      if_neg (Ne.symm here)
    show (({ quote := some quote, depth := depth } : Reading).step c).read rest = _
    rw [one, ih later]

theorem takes_bytes {opening closing : String} (bytes : List UInt8)
    (opens : (inside 0).read opening.toList = { quote := some '\'' })
    (closes : (({ quote := some '\'' } : Reading).read closing.toList).settle = inside 0) :
    Takes (opening ++ hexadecimal bytes ++ closing) 0 0 := by
  have free : '\'' ∉ (hexadecimal bytes).toList := fun member => by cases isWord_hexadecimal bytes _ member
  rw [Takes, String.toList_append, String.toList_append, read_append, read_append, opens, read_quoted free, closes]

namespace Quote

theorem read_double {closing : Char} (reopens : (inside 0).step closing = { quote := some closing })
    (chars : List Char) :
    ({ quote := some closing } : Reading).read (double closing chars) = { quote := some closing } := by
  induction chars with
  | nil => rfl
  | cons c rest ih =>
    have closes : ({ quote := some closing } : Reading).step closing = inside 0 := if_pos rfl
    unfold double
    split
    next same =>
      subst same
      show ((({ quote := some c } : Reading).step c).step c).read (double c rest) = _
      rw [closes, reopens, ih]
    next other =>
      have stays : ({ quote := some closing } : Reading).step c = { quote := some closing } := if_neg other
      show (({ quote := some closing } : Reading).step c).read (double closing rest) = _
      rw [stays, ih]

theorem leads_apply {q : Quote} (opens : (inside 0).read q.opening.toList = { quote := some q.closing })
    (reopens : (inside 0).step q.closing = { quote := some q.closing }) (s : String) : Leads (q.apply s) 0 0 := by
  have last : q.closing.toString.toList = [q.closing] := by simp [Char.toString]
  have closes : ({ quote := some q.closing } : Reading).read [q.closing] = inside 0 := if_pos rfl
  rw [Leads, apply, String.toList_append, String.toList_append, read_append, read_append, opens, String.toList_ofList,
    read_double reopens, last, closes]

end Quote

/-! ### The dialects -/

namespace Dialect

theorem takes_decimal {s : String} (words : ∀ t ∈ (Value.decimal s).bareWords, Takes t 0 0) :
    Takes s (Value.decimal s).isSigned.toNat (Value.decimal s).isSigned.toNat := by
  unfold Value.isSigned
  unfold Value.bareWords at words
  dsimp only at words ⊢
  cases spelled : s.toList with
  | nil =>
    rw [spelled] at words
    exact words s (List.mem_singleton.mpr rfl)
  | cons c digits =>
    rw [spelled] at words
    -- As for an integer, a leading minus is an operator, and only what follows has to be a word.
    by_cases minused : c = '-'
    · subst minused
      have same : s = "-" ++ String.ofList digits := by
        apply String.toList_inj.mp
        rw [spelled, String.toList_append, String.toList_ofList, String.toList_ofList]
        rfl
      rw [same]
      exact minus.before ((words _ (List.mem_singleton.mpr rfl)).deeper 1)
    · have plain : decide ((c :: digits).head? = some '-') = false := decide_eq_false (by simpa using minused)
      rw [plain]
      exact words s (by simp [minused])

theorem takes_literal {d : Dialect} (quoted : ∀ s, Leads (d.quoteString s) 0 0) (boolean : ∀ b, Takes (d.boolean b) 0 0)
    (binary : ∀ bytes, Takes (d.binary bytes) 0 0) {value : Value} {text : String}
    (words : ∀ s ∈ value.bareWords, Takes s 0 0) (written : d.literal value = .ok text) :
    Takes text value.isSigned.toNat value.isSigned.toNat := by
  cases value with
  | list items => cases written
  | null => obtain rfl := Except.ok.inj written; exact takes_text _ rfl
  | bool b => obtain rfl := Except.ok.inj written; exact boolean b
  | int32 n => obtain rfl := Except.ok.inj written; exact takes_int _
  | int64 n => obtain rfl := Except.ok.inj written; exact takes_int _
  | double x => obtain rfl := Except.ok.inj written; exact x.takes_render
  | text s => obtain rfl := Except.ok.inj written; exact (quoted s).takes
  | guid s => obtain rfl := Except.ok.inj written; exact (quoted s).takes
  | dateTime m => obtain rfl := Except.ok.inj written; exact (quoted _).takes
  | binary bytes => obtain rfl := Except.ok.inj written; exact binary bytes
  | decimal s =>
    obtain rfl := Except.ok.inj written
    exact takes_decimal words

theorem takes_columnType {d : Dialect} (each : ∀ {type name}, d.columnType type = some name → Takes name 1 1)
    {type : DataType} {name : String} (written : d.typeName type = .ok name) : Takes name 1 1 :=
  each (columnType_of_typeName written)

theorem groups_name {name : String} (takes : Takes name 0 0) : ({ name } : RoutineSpelling).Groups 0 :=
  ⟨takes, leads_text [] rfl, ⟨nofun, takes_text [] rfl⟩⟩

theorem standardRoutine_groups {routine : Routine} {s : RoutineSpelling} (words : ∀ t ∈ routine.words, Takes t 0 0)
    (found : standardRoutine routine = some s) : ∃ depth, s.Groups depth := by
  cases routine with
  | isIn | cast => cases found
  | custom name =>
    obtain rfl := Option.some.inj found
    exact ⟨0, groups_name (words name (List.mem_singleton.mpr rfl))⟩
  -- The spellings of the text tests open a parenthesis of their own, which they close again.
  | startsWith =>
    obtain rfl := Option.some.inj found
    exact ⟨1, takes_text _ rfl, leads_text _ rfl, ends_text _ _ rfl rfl⟩
  | endsWith =>
    obtain rfl := Option.some.inj found
    exact ⟨1, takes_text _ rfl, leads_text _ rfl, ends_text _ _ rfl rfl⟩
  | containsString =>
    obtain rfl := Option.some.inj found
    exact ⟨1, takes_text _ rfl, leads_text _ rfl, ends_text _ _ rfl rfl⟩
  | like =>
    obtain rfl := Option.some.inj found
    exact ⟨0, takes_text _ rfl, leads_text [] rfl, ⟨nofun, takes_text [] rfl⟩⟩
  | year | month | day =>
    obtain rfl := Option.some.inj found
    exact ⟨0, takes_text _ rfl, leads_text _ rfl, ⟨nofun, takes_text [] rfl⟩⟩
  | _ =>
    obtain rfl := Option.some.inj found
    exact ⟨0, groups_name (takes_text _ rfl)⟩

theorem standardAggregate_takes (kind : AggregateKind) : Takes (standardAggregate kind) 0 0 := by
  cases kind <;> exact takes_text _ rfl

theorem standardJoin_takes (kind : JoinKind) {words : String} (found : standardJoin kind = some words) :
    Takes words 1 1 := by
  cases kind with
  | crossApply | outerApply => cases found
  | _ => obtain rfl := Option.some.inj found; exact takes_text _ rfl

theorem standardQuote_leads (s : String) : Leads (standardQuote.apply s) 0 0 := Quote.leads_apply rfl rfl s

theorem bracketQuote_leads (s : String) : Leads (bracketQuote.apply s) 0 0 := Quote.leads_apply rfl rfl s

theorem nationalQuote_leads (s : String) : Leads (nationalQuote.apply s) 0 0 := Quote.leads_apply rfl rfl s

/-- Texts in single quotes. -/
theorem singleQuote_leads (s : String) : Leads (Quote.apply ⟨"'", '\''⟩ s) 0 0 := Quote.leads_apply rfl rfl s

theorem postgres_boolean_takes (b : Bool) : Takes (postgres.boolean b) 0 0 := by
  cases b with
  | true => exact (takes_text _ rfl : Takes "TRUE" 0 0)
  | false => exact (takes_text _ rfl : Takes "FALSE" 0 0)

theorem postgres_binary_takes (bytes : List UInt8) : Takes (postgres.binary bytes) 0 0 := by
  have opens : (inside 0).read "'\\x".toList = { quote := some '\'' } := rfl
  have closes : (({ quote := some '\'' } : Reading).read "'::bytea".toList).settle = inside 0 := rfl
  exact takes_bytes bytes opens closes

theorem postgres_columnType_takes {type : DataType} {name : String} (found : postgres.columnType type = some name) :
    Takes name 1 1 := by
  cases type with
  | enumeration name =>
    obtain rfl := Option.some.inj found
    exact ((standardQuote_leads name).deeper 1).takes
  | void | entity | tuple | sequence | nullable | unknown => cases found
  | _ => obtain rfl := Option.some.inj found; exact takes_text _ rfl

theorem postgres_join_takes {kind : JoinKind} {words : String} (found : postgres.joinKeyword kind = some words) :
    Takes words 1 1 := by
  cases kind with
  | crossApply | outerApply => obtain rfl := Option.some.inj found; exact takes_text _ rfl
  | inner => exact standardJoin_takes .inner found
  | left => exact standardJoin_takes .left found
  | right => exact standardJoin_takes .right found
  | full => exact standardJoin_takes .full found
  | cross => exact standardJoin_takes .cross found

theorem postgres_marker_takes (n : Nat) : Takes (postgres.marker n) 0 0 := by
  have sign : Leads "$" 0 0 := leads_text _ rfl
  exact sign.before (takes_nat (n + 1))

theorem postgres_groups : postgres.Groups where
  marker := postgres_marker_takes
  ident := standardQuote_leads
  literal := takes_literal (d := postgres) singleQuote_leads postgres_boolean_takes postgres_binary_takes
  typeName := takes_columnType postgres_columnType_takes
  routine := standardRoutine_groups
  aggregate := standardAggregate_takes
  joinKeyword := postgres_join_takes
  unboundedLimit found := by cases found
  forUpdate found := by obtain rfl := Option.some.inj found; exact takes_text _ rfl

theorem sqlite_columnType_takes {type : DataType} {name : String} (found : sqlite.columnType type = some name) :
    Takes name 1 1 := by
  cases type with
  | void | entity | tuple | sequence | nullable | unknown => cases found
  | _ => obtain rfl := Option.some.inj found; exact takes_text _ rfl

theorem datePart_groups {format : String} (free : '\'' ∉ format.toList) : (datePart format).Groups 1 where
  name := (takes_text _ rfl : Takes "CAST" 0 0)
  opening := by
    have opens : (inside 1).read "strftime('".toList = { quote := some '\'', depth := 2 } := rfl
    have closes : ({ quote := some '\'', depth := 2 } : Reading).read "', ".toList = inside 2 := rfl
    show Leads ("strftime('" ++ format ++ "', ") 1 2
    rw [Leads, String.toList_append, String.toList_append, read_append, read_append, opens, read_quoted free, closes]
  closing := (ends_text _ _ rfl rfl : Ends ") AS INTEGER" 2 1)

theorem sqlite_routine_groups {routine : Routine} {s : RoutineSpelling} (words : ∀ t ∈ routine.words, Takes t 0 0)
    (found : sqlite.routine routine = some s) : ∃ depth, s.Groups depth := by
  cases routine with
  | concat =>
    obtain rfl := Option.some.inj found
    exact ⟨0, takes_text _ rfl, leads_text [] rfl, ⟨nofun, takes_text [] rfl⟩⟩
  | substring => obtain rfl := Option.some.inj found; exact ⟨0, groups_name (takes_text _ rfl)⟩
  | now =>
    obtain rfl := Option.some.inj found
    exact ⟨0, takes_text _ rfl, leads_text _ rfl, ⟨nofun, takes_text [] rfl⟩⟩
  | year => obtain rfl := Option.some.inj found; exact ⟨1, datePart_groups (by decide)⟩
  | month => obtain rfl := Option.some.inj found; exact ⟨1, datePart_groups (by decide)⟩
  | day => obtain rfl := Option.some.inj found; exact ⟨1, datePart_groups (by decide)⟩
  | _ => exact standardRoutine_groups words found

theorem bit_takes (b : Bool) : Takes (if b then "1" else "0") 0 0 := by
  cases b with
  | true => exact (takes_text _ rfl : Takes "1" 0 0)
  | false => exact (takes_text _ rfl : Takes "0" 0 0)

theorem sqlite_binary_takes (bytes : List UInt8) : Takes (sqlite.binary bytes) 0 0 := by
  have opens : (inside 0).read "X'".toList = { quote := some '\'' } := rfl
  have closes : (({ quote := some '\'' } : Reading).read "'".toList).settle = inside 0 := rfl
  exact takes_bytes bytes opens closes

theorem sqlite_groups : sqlite.Groups where
  marker _ := (takes_text _ rfl : Takes "?" 0 0)
  ident := standardQuote_leads
  literal := takes_literal (d := sqlite) singleQuote_leads bit_takes sqlite_binary_takes
  typeName := takes_columnType sqlite_columnType_takes
  routine := sqlite_routine_groups
  aggregate := standardAggregate_takes
  joinKeyword {kind _} := standardJoin_takes kind
  unboundedLimit found := by
    obtain rfl := Option.some.inj found
    exact (takes_text _ rfl : Takes "-1" 1 1)
  forUpdate found := by cases found

variable (paging : Paging)

theorem sqlServer_marker_takes (n : Nat) : Takes ((sqlServer paging).marker n) 0 0 := by
  have sign : Leads "@" 0 0 := leads_text _ rfl
  have spelled : "p" ++ toString n = String.ofList ('p' :: Nat.toDigits 10 n) := by
    apply String.toList_inj.mp
    rw [String.toList_append, Nat.toString_eq_repr, Nat.repr_eq_ofList_toDigits, String.toList_ofList,
      String.toList_ofList, String.toList_ofList]
    rfl
  have word : Takes ("p" ++ toString n) 0 0 := by
    rw [spelled]
    refine takes_word (by decide) (List.forall_mem_cons.mpr ⟨rfl, fun c member => ?_⟩)
    exact isWord_digit (digits_toDigits c member)
  have whole := sign.before word
  rwa [← String.append_assoc] at whole

theorem sqlServer_columnType_takes {type : DataType} {name : String}
    (found : (sqlServer paging).columnType type = some name) : Takes name 1 1 := by
  cases type with
  | void | entity | tuple | sequence | nullable | unknown => cases found
  | _ => obtain rfl := Option.some.inj found; exact takes_text _ rfl

theorem sqlServer_routine_groups {routine : Routine} {s : RoutineSpelling} (words : ∀ t ∈ routine.words, Takes t 0 0)
    (found : (sqlServer paging).routine routine = some s) : ∃ depth, s.Groups depth := by
  cases routine with
  | concat =>
    obtain rfl := Option.some.inj found
    exact ⟨0, takes_text _ rfl, leads_text [] rfl, ⟨nofun, takes_text [] rfl⟩⟩
  | length | now => obtain rfl := Option.some.inj found; exact ⟨0, groups_name (takes_text _ rfl)⟩
  | year | month | day =>
    obtain rfl := Option.some.inj found
    exact ⟨0, takes_text _ rfl, leads_text _ rfl, ⟨nofun, takes_text [] rfl⟩⟩
  | startsWith | endsWith | containsString =>
    obtain rfl := Option.some.inj found
    exact ⟨1, takes_text _ rfl, leads_text _ rfl, ends_text _ _ rfl rfl⟩
  | _ => exact standardRoutine_groups words found

theorem sqlServer_aggregate_takes (kind : AggregateKind) : Takes ((sqlServer paging).aggregate kind) 0 0 := by
  cases kind with
  | longCount => exact (takes_text _ rfl : Takes "COUNT_BIG" 0 0)
  | count => exact standardAggregate_takes .count
  | sum => exact standardAggregate_takes .sum
  | min => exact standardAggregate_takes .min
  | max => exact standardAggregate_takes .max
  | average => exact standardAggregate_takes .average

theorem sqlServer_join_takes {kind : JoinKind} {words : String}
    (found : (sqlServer paging).joinKeyword kind = some words) : Takes words 1 1 := by
  cases kind with
  | crossApply | outerApply => obtain rfl := Option.some.inj found; exact takes_text _ rfl
  | inner => exact standardJoin_takes .inner found
  | left => exact standardJoin_takes .left found
  | right => exact standardJoin_takes .right found
  | full => exact standardJoin_takes .full found
  | cross => exact standardJoin_takes .cross found

theorem sqlServer_binary_takes (bytes : List UInt8) : Takes ((sqlServer paging).binary bytes) 0 0 := by
  have spelled : "0x" ++ hexadecimal bytes = String.ofList ('0' :: 'x' :: (hexadecimal bytes).toList) := by
    apply String.toList_inj.mp
    rw [String.toList_append, String.toList_ofList, String.toList_ofList]
    rfl
  show Takes ("0x" ++ hexadecimal bytes) 0 0
  rw [spelled]
  refine takes_word (by decide) (List.forall_mem_cons.mpr ⟨rfl, List.forall_mem_cons.mpr ⟨rfl, ?_⟩⟩)
  exact isWord_hexadecimal bytes

theorem sqlServer_groups : (sqlServer paging).Groups where
  marker := sqlServer_marker_takes paging
  ident := bracketQuote_leads
  literal := takes_literal (d := sqlServer paging) nationalQuote_leads bit_takes (sqlServer_binary_takes paging)
  typeName := takes_columnType (sqlServer_columnType_takes paging)
  routine := sqlServer_routine_groups paging
  aggregate := sqlServer_aggregate_takes paging
  joinKeyword := sqlServer_join_takes paging
  unboundedLimit found := by cases found
  forUpdate found := by cases found

end Dialect

namespace Shipped

theorem groups (d : Shipped) : d.dialect.Groups := by
  cases d with
  | postgres => exact Dialect.postgres_groups
  | sqlite => exact Dialect.sqlite_groups
  | sqlServer paging => exact Dialect.sqlServer_groups paging

/-- Nothing that an operand is made of can be taken for an operator between the operands, unless the operand is of a
kind that shows one and gets no parentheses. -/
theorem operand_whole (d : Shipped) {n : Node} {p : Place} {w : Wording} (closed : n.isClosed)
    (hidden : d.dialect.exposes p n = true → d.dialect.isOperation n = true)
    (written : d.dialect.operand (d.dialect.spell n) p = .ok w) (next : Nat) :
    operators (w.render d.dialect.marker next) = [] :=
  operators_takes (Dialect.operand_takes d.groups closed hidden w written next)

theorem operand_membership (d : Shipped) {sought query : Node} {type : DataType} {p : Place} {w : Wording}
    (closed : (Node.subquery .isIn (some sought) query type).isClosed)
    (hidden : d.dialect.exposes p sought = true → d.dialect.isOperation sought = true)
    (written : d.dialect.operand (d.dialect.spell (.subquery .isIn (some sought) query type)) p = .ok w) (next : Nat) :
    operators (w.render d.dialect.marker next) = ["IN"] :=
  Dialect.operators_membership d.groups closed hidden w written next

/-- Compared with a column, the test is read as one of the comparison where both operators bind alike. -/
theorem format_membership :
    let membership : Node := .subquery .isIn (some (.column ⟨"t0", "x", .int32⟩)) (.select {
      label := "s0"
      columns := [⟨"z", .column ⟨"t1", "z", .int32⟩⟩]
      source := some (.table "U" "t1" .void) }) .boolean
    Shipped.sqlite.dialect.format (.binary .eq (.column ⟨"t0", "y", .boolean⟩) membership .boolean) =
      .ok ⟨"\"t0\".\"y\" = \"t0\".\"x\" IN (SELECT \"t1\".\"z\" FROM \"U\" AS \"t1\")", []⟩ ∧
    (operators <$> Formatted.text <$> Shipped.sqlite.dialect.format membership) = .ok ["IN"] := by
  decide +kernel

end Shipped

end QueryTree
