import QueryTree.Proofs.Dialect.Grouping
import QueryTree.Proofs.Dialect.Quotations

/-! What the literals of a command text are read as.

A literal is a numeral, a word, a quotation or digits of bytes, and a database reads it up to where a blank, a comma, a
parenthesis or a semicolon may follow. Whatever is quoted is read back, and so are numbers and bytes. A decimal, though,
is written as the text that it is kept as, which need be no numeral, and a double that has no digits as a name. So
what is written is one literal just in case the value is neither of these.
-/

set_option autoImplicit false

namespace QueryTree

/-! ### Numerals -/

/-- Takes the start of a text, if it is of some form, and leaves the rest. -/
def Scan : Type := List Char → Option (List Char × List Char)

namespace Scan

def char (p : Char → Bool) : Scan
  | c :: rest => if p c then some ([c], rest) else none
  | [] => none

/-- As many digits as there are, and at least one. -/
def digits : Scan := fun chars =>
  match chars.takeWhile Char.isDigit with
  | [] => none
  | taken => some (taken, chars.dropWhile Char.isDigit)

def andThen (first second : Scan) : Scan := fun chars => do
  let (taken, rest) ← first chars
  let (more, left) ← second rest
  return (taken ++ more, left)

def optional (scan : Scan) : Scan := fun chars => scan chars <|> some ([], chars)

def sign : Scan := optional (char fun c => c = '-' || c = '+')

/-- Digits, with or without a fraction and an exponent. -/
def magnitude : Scan :=
  digits.andThen ((optional ((char fun c => c = '.').andThen digits)).andThen
    (optional ((char fun c => c = 'e' || c = 'E').andThen (sign.andThen digits))))

def numeral : Scan := sign.andThen magnitude

/-- What may stand after a literal. -/
def delimiters : List Char := [' ', ',', ')', ';']

def isDelimited (rest : List Char) : Bool := rest.head?.all fun c => delimiters.contains c

/-- Takes no more of a text because of what stands behind it. -/
def Stable (scan : Scan) : Prop :=
  ∀ chars rest, isDelimited rest = true →
    scan (chars ++ rest) = (scan chars).map fun (taken, left) => (taken, left ++ rest)

variable {first second scan : Scan} {p : Char → Bool} {chars rest : List Char}

theorem head_delimited {c : Char} {rest : List Char} (delimited : isDelimited (c :: rest) = true)
    (none : delimiters.any p = false) : p c = false := by
  have listed : c ∈ delimiters := by simpa [isDelimited] using delimited
  simpa using List.any_eq_false.mp none c listed

theorem stable_char (none : delimiters.any p = false) : (char p).Stable := by
  intro chars rest delimited
  cases chars with
  | nil =>
    cases rest with
    | nil => rfl
    | cons c rest => simp [char, head_delimited delimited none]
  | cons c chars =>
    simp only [char, List.cons_append]
    split <;> rfl

theorem takeWhile_delimited (chars : List Char) (delimited : isDelimited rest = true)
    (none : delimiters.any p = false) :
    (chars ++ rest).takeWhile p = chars.takeWhile p ∧ (chars ++ rest).dropWhile p = chars.dropWhile p ++ rest := by
  induction chars with
  | nil =>
    cases rest with
    | nil => exact ⟨rfl, rfl⟩
    | cons c rest => simp [head_delimited delimited none]
  | cons c chars ih =>
    simp only [List.cons_append, List.takeWhile_cons, List.dropWhile_cons]
    split
    · exact ⟨congrArg (c :: ·) ih.1, ih.2⟩
    · exact ⟨rfl, rfl⟩

theorem stable_digits : digits.Stable := by
  intro chars rest delimited
  obtain ⟨taken, left⟩ := takeWhile_delimited (p := Char.isDigit) chars delimited rfl
  rw [digits, digits, taken, left]
  split <;> rfl

theorem Stable.andThen (one : first.Stable) (two : second.Stable) : (first.andThen second).Stable := by
  intro chars rest delimited
  unfold Scan.andThen
  rw [one chars rest delimited]
  cases first chars with
  | none => rfl
  | some taken =>
    change (second (taken.2 ++ rest) >>= _) = Option.map _ (second taken.2 >>= _)
    rw [two taken.2 rest delimited]
    cases second taken.2 <;> rfl

theorem Stable.optional (stable : scan.Stable) : (optional scan).Stable := by
  intro chars rest delimited
  unfold Scan.optional
  rw [stable chars rest delimited]
  cases scan chars <;> rfl

theorem stable_sign : sign.Stable := (stable_char rfl).optional

theorem stable_magnitude : magnitude.Stable :=
  stable_digits.andThen ((((stable_char rfl).andThen stable_digits).optional).andThen
    (((stable_char rfl).andThen (stable_sign.andThen stable_digits)).optional))

theorem stable_numeral : numeral.Stable := stable_sign.andThen stable_magnitude

/-! ### Numerals that are written -/

theorem taken_exactly (each : ∀ c ∈ chars, p c = true) (stop : ∀ c ∈ rest.head?, p c = false) :
    (chars ++ rest).takeWhile p = chars ∧ (chars ++ rest).dropWhile p = rest := by
  rw [List.takeWhile_append_of_pos each, List.dropWhile_append_of_pos each]
  cases rest with
  | nil => simp
  | cons c rest => simp [stop c rfl]

theorem digits_written (filled : chars ≠ []) (each : ∀ c ∈ chars, c.isDigit = true)
    (stop : ∀ c ∈ rest.head?, c.isDigit = false) : digits (chars ++ rest) = some (chars, rest) := by
  obtain ⟨taken, left⟩ := taken_exactly each stop
  obtain ⟨c, others, rfl⟩ := List.exists_cons_of_ne_nil filled
  rw [digits, taken, left]

/-- The whole text is one numeral. -/
def IsNumeral (s : String) : Prop := numeral s.toList = some (s.toList, [])

instance (s : String) : Decidable (IsNumeral s) := inferInstanceAs (Decidable (_ = _))

theorem numeral_magnitude (written : magnitude chars = some (chars, [])) : numeral chars = some (chars, []) := by
  cases chars with
  | nil => cases written
  | cons c chars =>
    have unsigned : sign (c :: chars) = some ([], c :: chars) := by
      by_cases minus : c = '-'
      · subst minus
        cases written
      · by_cases plus : c = '+'
        · subst plus
          cases written
        · simp [sign, optional, char, minus, plus]
    rw [numeral, andThen, unsigned]
    change (magnitude (c :: chars) >>= _) = _
    rw [written]
    rfl

theorem numeral_other {c : Char} (noSign : c ≠ '-' ∧ c ≠ '+') (noDigit : c.isDigit = false) :
    numeral (c :: chars) = none := by
  simp [numeral, sign, optional, char, noSign, andThen, magnitude, digits, noDigit]

theorem numeral_minus (written : magnitude chars = some (chars, [])) :
    numeral ('-' :: chars) = some ('-' :: chars, []) := by
  change (magnitude chars >>= _) = _
  rw [written]
  rfl

theorem magnitude_whole (filled : chars ≠ []) (each : ∀ c ∈ chars, c.isDigit = true) :
    magnitude chars = some (chars, []) := by
  have whole : digits (chars ++ []) = some (chars, []) := digits_written filled each nofun
  rw [List.append_nil] at whole
  rw [magnitude, andThen, whole]
  change some (chars ++ [], []) = _
  rw [List.append_nil]

theorem magnitude_fraction {places : List Char} (filled : chars ≠ []) (each : ∀ c ∈ chars, c.isDigit = true)
    (filledPlaces : places ≠ []) (eachPlace : ∀ c ∈ places, c.isDigit = true) :
    magnitude (chars ++ '.' :: places) = some (chars ++ '.' :: places, []) := by
  have whole : digits (chars ++ '.' :: places) = some (chars, '.' :: places) :=
    digits_written filled each (by simp)
  have fraction : digits (places ++ []) = some (places, []) := digits_written filledPlaces eachPlace nofun
  rw [List.append_nil] at fraction
  have after : (optional ((char fun c => c = '.').andThen digits)) ('.' :: places) = some ('.' :: places, []) := by
    unfold optional andThen
    change ((digits places >>= _) <|> _) = _
    rw [fraction]
    rfl
  rw [magnitude, andThen, whole]
  change (andThen _ _ ('.' :: places) >>= _) = _
  rw [andThen, after]
  change some (chars ++ ('.' :: places ++ []), []) = _
  rw [List.append_nil]

end Scan

open Scan (IsNumeral isDelimited)

theorem isNumeral_magnitude {s : String} (written : Scan.magnitude s.toList = some (s.toList, [])) : IsNumeral s :=
  Scan.numeral_magnitude written

theorem isNumeral_minus {s : String} (written : Scan.magnitude s.toList = some (s.toList, [])) :
    IsNumeral ("-" ++ s) := by
  unfold IsNumeral
  rw [String.toList_append]
  exact Scan.numeral_minus written

theorem magnitude_nat (n : Nat) : Scan.magnitude (toString n).toList = some ((toString n).toList, []) := by
  rw [Nat.toString_eq_repr, Nat.repr_eq_ofList_toDigits, String.toList_ofList]
  exact Scan.magnitude_whole Nat.toDigits_ne_nil digits_toDigits

theorem numeral_int (n : Int) : IsNumeral (toString n) := by
  cases n with
  | ofNat n => exact isNumeral_magnitude (magnitude_nat n)
  | negSucc n => exact isNumeral_minus (magnitude_nat (n + 1))

namespace Double

theorem magnitude_positional (digits : Nat) (exponent : Int) :
    Scan.magnitude (positional digits exponent).toList = some ((positional digits exponent).toList, []) := by
  unfold positional
  split
  next =>
    rw [String.toList_ofList]
    apply Scan.magnitude_whole
    · simp [Nat.toDigits_ne_nil]
    · exact List.forall_mem_append.mpr ⟨digits_toDigits, digits_zeros⟩
  next negative =>
    extract_lets text places padded whole
    have each : ∀ c ∈ padded, c.isDigit = true := List.forall_mem_append.mpr ⟨digits_zeros, digits_toDigits⟩
    -- Zeros in front make sure that a digit is left before the point.
    have long : places + 1 ≤ padded.length := by
      simp only [padded, List.length_append, List.length_replicate]
      omega
    have point : 0 < places := by omega
    have before : (padded.take whole).length = padded.length - places := by simp [whole]
    have after : (padded.drop whole).length = places := by
      rw [List.length_drop]
      omega
    have spelled : (String.ofList (padded.take whole) ++ "." ++ String.ofList (padded.drop whole)).toList =
        padded.take whole ++ '.' :: padded.drop whole := by simp
    rw [spelled]
    apply Scan.magnitude_fraction
    · apply List.ne_nil_of_length_pos
      omega
    · exact fun c member => each c (List.mem_of_mem_take member)
    · apply List.ne_nil_of_length_pos
      omega
    · exact fun c member => each c (List.mem_of_mem_drop member)

theorem isNumeral_render (x : Double) : IsNumeral x.render ↔ x.isFinite = true := by
  unfold render
  by_cases nan : x.isNaN = true
  · have endless : x.isFinite = false := by
      simp only [isNaN, Bool.and_eq_true, decide_eq_true_eq] at nan
      simp [isFinite, nan.1]
    rw [if_pos nan, endless]
    decide
  rw [if_neg nan]
  by_cases infinite : x.isInfinite = true
  · have endless : x.isFinite = false := by
      simp only [isInfinite, Bool.and_eq_true, decide_eq_true_eq] at infinite
      simp [isFinite, infinite.1]
    rw [endless, infinite]
    change IsNumeral (if x.isNegative then "-" ++ "inf" else "inf") ↔ _
    cases x.isNegative <;> decide
  · have finite : x.isFinite = true := by
      simp only [isNaN, isInfinite, Bool.and_eq_true, decide_eq_true_eq] at nan infinite
      simp only [isFinite, decide_eq_true_eq]
      tauto
    -- The shortest digits that tell the number apart, whatever they are.
    have magnitude := magnitude_positional (x.shortest .up).1 (x.shortest .up).2
    rw [Bool.eq_false_iff.mpr infinite]
    apply iff_of_true _ finite
    change IsNumeral (if x.isNegative then "-" ++ _ else _)
    cases x.isNegative with
    | true => exact isNumeral_minus magnitude
    | false => exact isNumeral_magnitude magnitude

end Double

/-! ### Bytes -/

/-- The value of a hexadecimal digit, in either case. -/
def nibble? (c : Char) : Option Nat :=
  if '0' ≤ c ∧ c ≤ '9' then some (c.toNat - 48)
  else if 'A' ≤ c ∧ c ≤ 'F' then some (c.toNat - 55)
  else if 'a' ≤ c ∧ c ≤ 'f' then some (c.toNat - 87)
  else none

/-- The bytes of digits in pairs. -/
def decode : List Char → Option (List UInt8)
  | [] => some []
  | [_] => none
  | high :: low :: rest => do
    let high ← nibble? high
    let low ← nibble? low
    return .ofNat (16 * high + low) :: (← decode rest)

theorem nibble_digit : ∀ n < 16, nibble? (hexadecimal.digit n) = some n := by decide

theorem decode_hexadecimal (bytes : List UInt8) : decode (hexadecimal bytes).toList = some bytes := by
  rw [hexadecimal, String.toList_ofList]
  induction bytes with
  | nil => rfl
  | cons b bytes ih =>
    have small : b.toNat < 256 := b.toNat_lt
    have whole : UInt8.ofNat (16 * (b.toNat / 16) + b.toNat % 16) = b := by
      rw [Nat.div_add_mod]
      exact UInt8.ofNat_toNat
    have high := nibble_digit (b.toNat / 16) (by omega)
    have low := nibble_digit (b.toNat % 16) (by omega)
    simp only [List.flatMap_cons, List.cons_append, List.nil_append, decode, high, low, ih]
    change some (UInt8.ofNat _ :: bytes) = _
    rw [whole]

theorem nibbles_hexadecimal (bytes : List UInt8) : ∀ c ∈ (hexadecimal bytes).toList, (nibble? c).isSome = true := by
  intro c member
  rw [hexadecimal, String.toList_ofList] at member
  obtain ⟨b, _, inByte⟩ := List.mem_flatMap.mp member
  have small : b.toNat < 256 := b.toNat_lt
  simp only [List.mem_cons, List.not_mem_nil, or_false] at inByte
  rcases inByte with rfl | rfl
  · rw [nibble_digit _ (by omega)]
    rfl
  · rw [nibble_digit _ (by omega)]
    rfl

/-! ### Literals -/

/-- What a literal says. A numeral stays as it is spelled. -/
inductive Literal where
  | null
  | boolean (b : Bool)
  | numeral (text : String)
  | text (content : String)
  | bytes (bytes : List UInt8)
  deriving DecidableEq, Repr

/-- The literals of a database, as far as a dialect writes some. -/
structure Lexis where
  words : List (String × Literal)
  quote : Quote
  /-- What stands around the digits of bytes. -/
  opening : String
  closing : String

namespace Lexis

variable (l : Lexis) (chars : List Char)

def readNumeral : Option (Literal × List Char) := do
  let (taken, left) ← Scan.numeral chars
  return (.numeral (.ofList taken), left)

def readWord : Option (Literal × List Char) :=
  l.words.findSome? fun (word, literal) => do
    let left ← chars.dropPrefix? word.toList
    return (literal, left)

def readText : Option (Literal × List Char) := do
  let (content, left) ← l.quote.read chars
  return (.text content, left)

def readBytes : Option (Literal × List Char) := do
  let digits ← chars.dropPrefix? l.opening.toList
  let bytes ← decode (digits.takeWhile fun c => (nibble? c).isSome)
  let left ← (digits.dropWhile fun c => (nibble? c).isSome).dropPrefix? l.closing.toList
  return (.bytes bytes, left)

/-- What was read, if it ends where a literal may. -/
def apart (found : Option (Literal × List Char)) : Option (Literal × List Char) :=
  found.filter fun (_, left) => isDelimited left

/-- The literal that a text starts with, and what follows it. -/
def read : Option (Literal × List Char) :=
  apart (readNumeral chars) |>.or (apart (l.readWord chars)) |>.or (apart (l.readText chars))
    |>.or (apart (l.readBytes chars))

end Lexis

namespace Shipped

def lexis : Shipped → Lexis
  | .postgres =>
    { words := [("NULL", .null), ("TRUE", .boolean true), ("FALSE", .boolean false)]
      quote := ⟨"'", '\''⟩
      opening := "'\\x"
      closing := "'::bytea" }
  | .sqlite => { words := [("NULL", .null)], quote := ⟨"'", '\''⟩, opening := "X'", closing := "'" }
  | .sqlServer _ => { words := [("NULL", .null)], quote := ⟨"N'", '\''⟩, opening := "0x", closing := "" }

/-- The literal that a value is written as. A list is none. -/
def literal? (d : Shipped) : Value → Option Literal
  | .null => some .null
  | .bool b =>
    match d with
    | .postgres => some (.boolean b)
    | _ => some (.numeral (if b then "1" else "0"))
  | .int32 n => some (.numeral (toString n.toInt))
  | .int64 n => some (.numeral (toString n.toInt))
  | .double x => some (.numeral x.render)
  | .decimal s => some (.numeral s)
  | .text s | .guid s => some (.text s)
  | .dateTime m => some (.text m.render)
  | .binary bytes => some (.bytes bytes)
  | .list _ => none

end Shipped

/-- A number, if kept as its text or as a double, has digits to write. -/
def Value.isSpelled : Value → Bool
  | .double x => x.isFinite
  | .decimal s => IsNumeral s
  | _ => true

variable {l : Lexis} {d : Shipped} {chars rest : List Char}

namespace Lexis

theorem apart_some (literal : Literal) (delimited : isDelimited rest = true) :
    apart (some (literal, rest)) = some (literal, rest) := by
  simp only [apart, Option.filter_some, delimited, if_true]

theorem read_numeral {s : String} (numeral : IsNumeral s) (delimited : isDelimited rest = true) :
    l.read (s.toList ++ rest) = some (.numeral s, rest) := by
  have found : readNumeral (s.toList ++ rest) = some (.numeral s, rest) := by
    rw [readNumeral, Scan.stable_numeral _ _ delimited, numeral]
    change some (Literal.numeral (.ofList s.toList), [] ++ rest) = _
    rw [String.ofList_toList, List.nil_append]
  rw [read, found, apart_some _ delimited]
  rfl

theorem readText_apply (s : String) (other : rest.head? ≠ some l.quote.closing) :
    l.readText ((l.quote.apply s).toList ++ rest) = some (.text s, rest) := by
  rw [readText, Quote.read_apply _ _ other]
  rfl

theorem readBytes_written (bytes : List UInt8)
    (stop : ∀ c ∈ (l.closing.toList ++ rest).head?, (nibble? c).isSome = false) :
    l.readBytes (l.opening.toList ++ ((hexadecimal bytes).toList ++ (l.closing.toList ++ rest))) =
      some (.bytes bytes, rest) := by
  have each := nibbles_hexadecimal bytes
  have closes := List.dropPrefix?_append_of_beq rest (beq_self_eq_true l.closing.toList)
  obtain ⟨taken, left⟩ := Scan.taken_exactly (p := fun c => (nibble? c).isSome) (nibbles_hexadecimal bytes) stop
  rw [readBytes, List.dropPrefix?_append_of_beq _ (beq_self_eq_true _)]
  change (decode _ >>= _) = _
  rw [taken, decode_hexadecimal]
  change (List.dropPrefix? _ _ >>= _) = _
  rw [left, closes]
  rfl

end Lexis

namespace Shipped

theorem readWord_found {word : String} {literal : Literal} (known : (word, literal) ∈ d.lexis.words)
    (rest : List Char) :
    Lexis.readNumeral (word.toList ++ rest) = none ∧
      d.lexis.readWord (word.toList ++ rest) = some (literal, rest) := by
  cases d with
  | postgres =>
    simp only [lexis, List.mem_cons, List.not_mem_nil, or_false, Prod.mk.injEq] at known
    rcases known with ⟨rfl, rfl⟩ | ⟨rfl, rfl⟩ | ⟨rfl, rfl⟩
    all_goals
      constructor
      · simp [Lexis.readNumeral, Scan.numeral_other]
      · simp [Lexis.readWord, lexis, List.dropPrefix?]
  | sqlite | sqlServer =>
    obtain ⟨rfl, rfl⟩ : word = "NULL" ∧ literal = .null := by simpa [lexis] using known
    constructor
    · simp [Lexis.readNumeral, Scan.numeral_other]
    · simp [Lexis.readWord, lexis, List.dropPrefix?]

theorem read_word {word : String} {literal : Literal} (known : (word, literal) ∈ d.lexis.words)
    (delimited : isDelimited rest = true) : d.lexis.read (word.toList ++ rest) = some (literal, rest) := by
  obtain ⟨number, found⟩ := readWord_found known rest
  rw [Lexis.read, number, found, Lexis.apart_some _ delimited]
  rfl

theorem quoted_only (d : Shipped) (s : String) (rest : List Char) :
    Lexis.readNumeral ((d.lexis.quote.apply s).toList ++ rest) = none ∧
      d.lexis.readWord ((d.lexis.quote.apply s).toList ++ rest) = none := by
  rw [Quote.toList_apply, List.append_assoc]
  cases d
  all_goals
    constructor
    · simp [Lexis.readNumeral, lexis, Scan.numeral_other]
    · simp [Lexis.readWord, lexis, List.dropPrefix?]

theorem closing_apart (d : Shipped) (delimited : isDelimited rest = true) :
    rest.head? ≠ some d.lexis.quote.closing := by
  intro same
  obtain ⟨after, rfl⟩ := List.head?_eq_some_iff.mp same
  cases d <;> cases delimited

theorem read_text (s : String) (delimited : isDelimited rest = true) :
    d.lexis.read ((d.dialect.quoteString s).toList ++ rest) = some (.text s, rest) := by
  have same : d.dialect.quoteString s = d.lexis.quote.apply s := by cases d <;> rfl
  obtain ⟨number, word⟩ := quoted_only d s rest
  rw [same, Lexis.read, number, word, Lexis.readText_apply s (closing_apart d delimited), Lexis.apart_some _ delimited]
  rfl

/-! Bytes may start like a numeral or be quoted, but then more follows at once than may follow one of those. -/

theorem binary_spelled (d : Shipped) (bytes : List UInt8) (rest : List Char) :
    (d.dialect.binary bytes).toList ++ rest =
      d.lexis.opening.toList ++ ((hexadecimal bytes).toList ++ (d.lexis.closing.toList ++ rest)) := by
  cases d <;> simp [dialect, Dialect.postgres, Dialect.sqlite, Dialect.sqlServer, lexis]

theorem readNumeral_bytes (d : Shipped) (chars : List Char) :
    Lexis.apart (Lexis.readNumeral (d.lexis.opening.toList ++ chars)) = none := by
  cases d with
  | postgres | sqlite => simp [Lexis.readNumeral, lexis, Scan.numeral_other, Lexis.apart]
  | sqlServer =>
    -- The zero is a numeral by itself, but the letter after it is no delimiter.
    have zero : Scan.numeral ('0' :: 'x' :: chars) = some (['0'], 'x' :: chars) := rfl
    simp [Lexis.readNumeral, lexis, zero, Lexis.apart, isDelimited, Scan.delimiters]

theorem readWord_bytes (d : Shipped) (chars : List Char) :
    d.lexis.readWord (d.lexis.opening.toList ++ chars) = none := by
  cases d <;> simp [Lexis.readWord, lexis, List.dropPrefix?]

theorem readText_bytes (d : Shipped) (bytes : List UInt8) (rest : List Char) :
    Lexis.apart (d.lexis.readText ((d.dialect.binary bytes).toList ++ rest)) = none := by
  cases d with
  | postgres =>
    have free : '\'' ∉ ("\\x" ++ hexadecimal bytes).toList := by
      rw [String.toList_append]
      intro member
      rcases List.mem_append.mp member with start | digit
      · exact absurd start (by decide)
      · cases isWord_hexadecimal bytes _ digit
    have quoted : (Shipped.postgres.dialect.binary bytes).toList ++ rest =
        (Shipped.postgres.lexis.quote.apply ("\\x" ++ hexadecimal bytes)).toList ++ ("::bytea".toList ++ rest) := by
      rw [Quote.toList_apply]
      change _ = _ ++ (Quote.double '\'' _ ++ _) ++ _
      rw [Quote.double_free free]
      simp [dialect, Dialect.postgres, lexis]
    rw [quoted, Lexis.readText_apply _ (by simp [lexis])]
    simp [Lexis.apart, isDelimited, Scan.delimiters]
  | sqlite | sqlServer =>
    rw [binary_spelled]
    simp [Lexis.readText, Quote.read, lexis, List.dropPrefix?, Lexis.apart]

theorem stop_closing (d : Shipped) (delimited : isDelimited rest = true) :
    ∀ c ∈ (d.lexis.closing.toList ++ rest).head?, (nibble? c).isSome = false := by
  cases d with
  | postgres | sqlite =>
    intro c member
    obtain rfl : c = '\'' := by simpa [lexis, eq_comm] using member
    rfl
  | sqlServer =>
    cases rest with
    | nil => exact nofun
    | cons c rest =>
      intro c' member
      obtain rfl : c = c' := by simpa [lexis] using member
      exact Scan.head_delimited (p := fun c => (nibble? c).isSome) delimited rfl

theorem read_bytes (bytes : List UInt8) (delimited : isDelimited rest = true) :
    d.lexis.read ((d.dialect.binary bytes).toList ++ rest) = some (.bytes bytes, rest) := by
  have text := readText_bytes d bytes rest
  rw [binary_spelled] at text ⊢
  rw [Lexis.read, readNumeral_bytes, readWord_bytes, text, Lexis.readBytes_written bytes (stop_closing d delimited),
    Lexis.apart_some _ delimited]
  rfl

/-! ### What is read -/

theorem readWord_known {literal : Literal} (found : l.readWord chars = some (literal, rest)) :
    ∃ word, (word, literal) ∈ l.words := by
  obtain ⟨⟨word, named⟩, known, found⟩ := List.exists_of_findSome?_eq_some found
  obtain ⟨left, -, same⟩ := Option.bind_eq_some_iff.mp found
  cases same
  exact ⟨word, known⟩

theorem numeral_of_read {s : String} (read : d.lexis.read s.toList = some (.numeral s, [])) : IsNumeral s := by
  simp only [Lexis.read, Option.or_eq_some_iff, Lexis.apart, Option.filter_eq_some_iff] at read
  -- No other reader gives a numeral.
  rcases read with ((⟨number, -⟩ | ⟨-, word, -⟩) | ⟨-, text, -⟩) | ⟨-, bytes, -⟩
  · obtain ⟨⟨taken, left⟩, scanned, same⟩ := Option.bind_eq_some_iff.mp number
    obtain ⟨spelled, rfl⟩ : String.ofList taken = s ∧ left = [] := by simpa using same
    subst spelled
    unfold IsNumeral
    rw [scanned, String.toList_ofList]
  · obtain ⟨named, known⟩ := readWord_known word
    cases d <;> simp [lexis] at known
  · obtain ⟨_, _, same⟩ := Option.bind_eq_some_iff.mp text
    cases same
  · simp [Lexis.readBytes, Option.bind_eq_some_iff] at bytes

/-- A text is read as a literal and nothing after it is. -/
def Reads (d : Shipped) (text : String) (literal : Literal) : Prop :=
  ∀ rest, isDelimited rest = true → d.lexis.read (text.toList ++ rest) = some (literal, rest)

theorem reads_boolean (d : Shipped) (b : Bool) :
    ∃ literal, d.literal? (.bool b) = some literal ∧ d.Reads (d.dialect.boolean b) literal := by
  cases d with
  | postgres =>
    refine ⟨.boolean b, rfl, fun rest => read_word ?_⟩
    cases b <;> simp [lexis, dialect, Dialect.postgres]
  | sqlite | sqlServer =>
    have numeral : IsNumeral (if b then "1" else "0") := by cases b <;> decide
    exact ⟨_, rfl, fun rest => Lexis.read_numeral numeral⟩

/-- A literal is read as what its value is, with nothing left or before anything delimited, just in case the value is
spelled. -/
theorem literal_read (d : Shipped) {value : Value} {text : String} (written : d.dialect.literal value = .ok text) :
    ∃ literal, d.literal? value = some literal ∧ (value.isSpelled = true → d.Reads text literal) ∧
      (d.lexis.read text.toList = some (literal, []) → value.isSpelled = true) := by
  -- Only numbers may be written as a text that is not read back.
  have numeral {s : String} (spelled : IsNumeral s ↔ value.isSpelled = true) :
      (value.isSpelled = true → d.Reads s (.numeral s)) ∧
        (d.lexis.read s.toList = some (.numeral s, []) → value.isSpelled = true) := by
    constructor
    · exact fun given rest => Lexis.read_numeral (spelled.mpr given)
    · exact fun read => spelled.mp (numeral_of_read read)
  cases value with
  | list items => cases written
  | null =>
    obtain rfl := Except.ok.inj written
    refine ⟨.null, rfl, fun _ rest => read_word ?_, fun _ => rfl⟩
    cases d <;> simp [lexis]
  | bool b =>
    obtain rfl := Except.ok.inj written
    obtain ⟨literal, meant, reads⟩ := reads_boolean d b
    exact ⟨literal, meant, fun _ => reads, fun _ => rfl⟩
  | int32 n =>
    obtain rfl := Except.ok.inj written
    exact ⟨_, rfl, numeral (iff_of_true (numeral_int _) rfl)⟩
  | int64 n =>
    obtain rfl := Except.ok.inj written
    exact ⟨_, rfl, numeral (iff_of_true (numeral_int _) rfl)⟩
  | double x =>
    obtain rfl := Except.ok.inj written
    exact ⟨_, rfl, numeral x.isNumeral_render⟩
  | decimal s =>
    obtain rfl := Except.ok.inj written
    exact ⟨_, rfl, numeral decide_eq_true_iff.symm⟩
  | text s =>
    obtain rfl := Except.ok.inj written
    exact ⟨_, rfl, fun _ _ => read_text s, fun _ => rfl⟩
  | guid s =>
    obtain rfl := Except.ok.inj written
    exact ⟨_, rfl, fun _ _ => read_text s, fun _ => rfl⟩
  | dateTime m =>
    obtain rfl := Except.ok.inj written
    exact ⟨_, rfl, fun _ _ => read_text m.render, fun _ => rfl⟩
  | binary bytes =>
    obtain rfl := Except.ok.inj written
    exact ⟨_, rfl, fun _ _ => read_bytes bytes, fun _ => rfl⟩

/-- A decimal is written as it is, whatever it is. -/
theorem decimal_unread :
    let s := "0); DROP TABLE users; --"
    Shipped.postgres.dialect.literal (.decimal s) = .ok s ∧ (Value.decimal s).isSpelled = false ∧
      Shipped.postgres.lexis.read s.toList = some (.numeral "0", "); DROP TABLE users; --".toList) := by
  decide +kernel

/-- A double that is no number is written as a name. -/
theorem nan_unread :
    Shipped.postgres.dialect.literal (.double .nan) = .ok "NaN" ∧ (Value.double .nan).isSpelled = false ∧
      Shipped.postgres.lexis.read "NaN".toList = none := by
  decide +kernel

end Shipped

end QueryTree
