import Mathlib.Tactic.SplitIfs
import QueryTree.Dialect.Shipped
import QueryTree.Proofs.Command.Plain

/-! The dialects at hand write no signs of their own.

Numbers, dates and bytes are written in digits and a few other characters, none of them a sign, and quoting adds
quotes only. So the texts of a dialect hold a sign only where a string of the tree does.
-/

set_option autoImplicit false

namespace QueryTree

/-! ### Values as text -/

theorem not_sign_of_digit {c : Char} (digit : c.isDigit = true) : isSign c = false := by
  cases sign : isSign c with
  | false => rfl
  | true =>
    have notWord := not_word_of_sign sign
    simp [isWord, Char.isAlphanum, digit] at notWord

theorem plain_digits (n : Nat) : ∀ c ∈ Nat.toDigits 10 n, isSign c = false := fun _ member =>
  not_sign_of_digit (Nat.isDigit_of_mem_toDigits (by decide) (by decide) member)

theorem not_sign_of_zeros {n : Nat} {c : Char} (member : c ∈ List.replicate n '0') : isSign c = false := by
  obtain rfl := List.eq_of_mem_replicate member
  rfl

theorem plain_nat (n : Nat) : Plain (toString n) := by
  rw [Nat.toString_eq_repr, Nat.repr_eq_ofList_toDigits]
  exact plain_ofList (plain_digits n)

theorem plain_int (n : Int) : Plain (toString n) := by
  cases n with
  | ofNat n => exact plain_nat n
  | negSucc n => exact (plain_text _ rfl : Plain "-").append (plain_nat (n + 1))

namespace Double

theorem plain_positional (digits : Nat) (exponent : Int) : Plain (positional digits exponent) := by
  unfold positional
  split
  · refine plain_ofList fun c member => ?_
    rcases List.mem_append.mp member with member | member
    · exact plain_digits digits c member
    · exact not_sign_of_zeros member
  · have padded : ∀ {k : Nat}, ∀ c ∈ List.replicate k '0' ++ Nat.toDigits 10 digits, isSign c = false := by
      intro k c member
      rcases List.mem_append.mp member with member | member
      · exact not_sign_of_zeros member
      · exact plain_digits digits c member
    refine ((plain_ofList fun c member => ?_).append (plain_text _ rfl)).append (plain_ofList fun c member => ?_)
    · exact padded c (List.mem_of_mem_take member)
    · exact padded c (List.mem_of_mem_drop member)

theorem plain_render (d : Double) : Plain d.render := by
  unfold render
  split
  · exact plain_text _ rfl
  · have magnitude : Plain (if d.isInfinite then "inf" else positional (d.shortest .up).1 (d.shortest .up).2) := by
      split
      · exact plain_text _ rfl
      · exact plain_positional _ _
    show Plain (if d.isNegative then "-" ++ _ else _)
    split
    · exact (plain_text _ rfl : Plain "-").append magnitude
    · exact magnitude

end Double

namespace Moment

theorem plain_padded (width n : Nat) : Plain (padded width n) := by
  refine plain_ofList fun c member => ?_
  rcases List.mem_append.mp member with member | member
  · exact not_sign_of_zeros member
  · exact plain_digits n c member

theorem plain_year (year : Int) : Plain (renderYear year) := by
  unfold renderYear
  split
  · exact plain_padded 4 _
  · refine Plain.append ?_ (plain_padded 4 _)
    split <;> exact plain_text _ rfl

theorem plain_fraction (nano : Nat) : Plain (renderFraction nano) := by
  have point : Plain "." := plain_text _ rfl
  unfold renderFraction
  split_ifs
  · exact plain_text [] rfl
  · exact point.append (plain_padded 3 _)
  · exact point.append (plain_padded 6 _)
  · exact point.append (plain_padded 9 _)

theorem plain_render (m : Moment) : Plain m.render := by
  have dash : Plain "-" := plain_text _ rfl
  have colon : Plain ":" := plain_text _ rfl
  have blank : Plain " " := plain_text _ rfl
  unfold render renderWith
  exact ((((((((((((plain_year m.year).append dash).append (plain_padded 2 _)).append dash).append
    (plain_padded 2 _)).append blank).append (plain_padded 2 _)).append colon).append (plain_padded 2 _)).append
    colon).append (plain_padded 2 _)).append (plain_fraction _))

end Moment

theorem plain_hexadecimal (bytes : List UInt8) : Plain (hexadecimal bytes) := by
  have digit : ∀ n : Nat, n < 16 → isSign (hexadecimal.digit n) = false := by decide
  refine plain_ofList fun c member => ?_
  obtain ⟨b, _, inByte⟩ := List.mem_flatMap.mp member
  have small : b.toNat < 256 := b.toNat_lt
  simp only [List.mem_cons, List.not_mem_nil, or_false] at inByte
  rcases inByte with rfl | rfl
  · exact digit _ (by omega)
  · exact digit _ (by omega)

/-! ### Quotes -/

namespace Quote

theorem mem_double {closing c : Char} : ∀ {chars : List Char}, c ∈ double closing chars → c ∈ chars
  | [], member => member
  | head :: rest, member => by
    unfold double at member
    split at member
    · simp only [List.mem_cons] at member ⊢
      rcases member with here | here | later
      · exact .inl here
      · exact .inl here
      · exact .inr (mem_double later)
    · simp only [List.mem_cons] at member ⊢
      rcases member with here | later
      · exact .inl here
      · exact .inr (mem_double later)

theorem plain_apply {q : Quote} (opening : Plain q.opening) (closing : isSign q.closing = false) {s : String}
    (plain : Plain s) : Plain (q.apply s) := by
  have last : Plain q.closing.toString := by
    intro c member
    obtain rfl : c = q.closing := by simpa [Char.toString] using member
    exact closing
  exact (opening.append (plain_ofList fun c member => plain c (mem_double member))).append last

end Quote

/-! ### The dialects -/

namespace Dialect

theorem plain_literal {d : Dialect} (quoted : ∀ {s}, Plain s → Plain (d.quoteString s))
    (boolean : ∀ b, Plain (d.boolean b)) (binary : ∀ bytes, Plain (d.binary bytes)) {value : Value} {text : String}
    (clean : ∀ s ∈ value.words, Plain s) (written : d.literal value = .ok text) : Plain text := by
  cases value with
  | list items => cases written
  | null => obtain rfl := Except.ok.inj written; exact plain_text _ rfl
  | bool b => obtain rfl := Except.ok.inj written; exact boolean b
  | int32 n => obtain rfl := Except.ok.inj written; exact plain_int _
  | int64 n => obtain rfl := Except.ok.inj written; exact plain_int _
  | double x => obtain rfl := Except.ok.inj written; exact x.plain_render
  | decimal s => obtain rfl := Except.ok.inj written; exact clean s (List.mem_singleton.mpr rfl)
  | text s => obtain rfl := Except.ok.inj written; exact quoted (clean s (List.mem_singleton.mpr rfl))
  | guid s => obtain rfl := Except.ok.inj written; exact quoted (clean s (List.mem_singleton.mpr rfl))
  | dateTime m => obtain rfl := Except.ok.inj written; exact quoted m.plain_render
  | binary bytes => obtain rfl := Except.ok.inj written; exact binary bytes

theorem columnType_of_typeName {d : Dialect} {type : DataType} {name : String} (written : d.typeName type = .ok name) :
    d.columnType type.underlying = some name := by
  unfold typeName at written
  split at written
  next found =>
    obtain rfl := Except.ok.inj written
    exact found
  next => cases written

def PlainSpelling (s : RoutineSpelling) : Prop := Plain s.name ∧ Plain s.opening ∧ Plain s.closing ∧ Opens s.closing

theorem opens_nothing : Opens "" := by
  intro c member
  simp at member

theorem plain_name {name : String} (plain : Plain name) : PlainSpelling { name } :=
  ⟨plain, plain_text [] rfl, plain_text [] rfl, opens_nothing⟩

theorem standardRoutine_plain {routine : Routine} {s : RoutineSpelling} (clean : ∀ t ∈ routine.words, Plain t)
    (found : standardRoutine routine = some s) : PlainSpelling s := by
  cases routine with
  | isIn | cast => cases found
  | custom name =>
    obtain rfl := Option.some.inj found
    exact plain_name (clean name (List.mem_singleton.mpr rfl))
  | startsWith =>
    obtain rfl := Option.some.inj found
    exact ⟨plain_text _ rfl, plain_text _ rfl, plain_text _ rfl, opens_text _ _ rfl⟩
  | endsWith =>
    obtain rfl := Option.some.inj found
    exact ⟨plain_text _ rfl, plain_text _ rfl, plain_text _ rfl, opens_text _ _ rfl⟩
  | containsString =>
    obtain rfl := Option.some.inj found
    exact ⟨plain_text _ rfl, plain_text _ rfl, plain_text _ rfl, opens_text _ _ rfl⟩
  | year | month | day =>
    obtain rfl := Option.some.inj found
    exact ⟨plain_text _ rfl, plain_text _ rfl, plain_text [] rfl, opens_nothing⟩
  | _ =>
    obtain rfl := Option.some.inj found
    exact plain_name (plain_text _ rfl)

theorem standardAggregate_plain (kind : AggregateKind) : Plain (standardAggregate kind) := by
  cases kind <;> exact plain_text _ rfl

theorem standardJoin_plain (kind : JoinKind) {words : String} (found : standardJoin kind = some words) :
    Plain words := by
  cases kind with
  | crossApply | outerApply => cases found
  | _ => obtain rfl := Option.some.inj found; exact plain_text _ rfl

theorem standardQuote_plain {s : String} (plain : Plain s) : Plain (standardQuote.apply s) := by
  have opening : Plain "\"" := plain_text _ rfl
  exact Quote.plain_apply opening rfl plain

theorem bracketQuote_plain {s : String} (plain : Plain s) : Plain (bracketQuote.apply s) := by
  have opening : Plain "[" := plain_text _ rfl
  exact Quote.plain_apply opening rfl plain

theorem nationalQuote_plain {s : String} (plain : Plain s) : Plain (nationalQuote.apply s) := by
  have opening : Plain "N'" := plain_text _ rfl
  exact Quote.plain_apply opening rfl plain

theorem singleQuote_plain {s : String} (plain : Plain s) : Plain (Quote.apply ⟨"'", '\''⟩ s) := by
  have opening : Plain "'" := plain_text _ rfl
  exact Quote.plain_apply opening rfl plain

theorem standardDelete_plain {owner : String} {label : Option String} (plain : Plain owner)
    (labels : ∀ l ∈ label, Plain l) : Plain (standardDelete owner label) := by
  refine Plain.append (Plain.append (plain_text _ rfl) (standardQuote_plain plain)) ?_
  cases label with
  | none => exact plain_text [] rfl
  | some l => exact (plain_text _ rfl : Plain " AS ").append (standardQuote_plain (labels l rfl))

theorem postgres_typeName {type : DataType} {name : String} (clean : ∀ s ∈ type.words, Plain s)
    (written : postgres.typeName type = .ok name) : Plain name := by
  have found := columnType_of_typeName written
  simp only [DataType.words] at clean
  revert found clean
  generalize DataType.underlying _ = type
  intro clean found
  cases type with
  | enumeration name =>
    obtain rfl := Option.some.inj found
    exact standardQuote_plain (clean name (List.mem_singleton.mpr rfl))
  | void | entity | tuple | sequence | nullable | unknown => cases found
  | _ => obtain rfl := Option.some.inj found; exact plain_text _ rfl

theorem postgres_join {kind : JoinKind} {words : String} (found : postgres.joinKeyword kind = some words) :
    Plain words := by
  cases kind with
  | crossApply => obtain rfl := Option.some.inj found; exact plain_text _ rfl
  | outerApply => obtain rfl := Option.some.inj found; exact plain_text _ rfl
  | inner => exact standardJoin_plain .inner found
  | left => exact standardJoin_plain .left found
  | right => exact standardJoin_plain .right found
  | full => exact standardJoin_plain .full found
  | cross => exact standardJoin_plain .cross found

theorem postgres_boolean (b : Bool) : Plain (postgres.boolean b) := by
  cases b with
  | true => exact (plain_text _ rfl : Plain "TRUE")
  | false => exact (plain_text _ rfl : Plain "FALSE")

theorem postgres_binary (bytes : List UInt8) : Plain (postgres.binary bytes) := by
  have opening : Plain "'\\x" := plain_text _ rfl
  have closing : Plain "'::bytea" := plain_text _ rfl
  exact (opening.append (plain_hexadecimal bytes)).append closing

theorem postgres_writes : postgres.Writes Plain Opens where
  ident := standardQuote_plain
  string := singleQuote_plain
  literal := plain_literal (d := postgres) singleQuote_plain postgres_boolean postgres_binary
  typeName := postgres_typeName
  routine := standardRoutine_plain
  aggregate := standardAggregate_plain
  joinKeyword := postgres_join
  unboundedLimit found := by cases found
  forUpdate found := by obtain rfl := Option.some.inj found; exact plain_text _ rfl
  autoIncrement := (plain_text _ rfl : Plain "GENERATED BY DEFAULT AS IDENTITY")
  tableGuard _ found := by cases found
  indexGuard _ _ found := by cases found
  deleteFrom := standardDelete_plain

theorem sqlite_typeName {type : DataType} {name : String} (written : sqlite.typeName type = .ok name) :
    Plain name := by
  have found := columnType_of_typeName written
  revert found
  generalize DataType.underlying _ = type
  intro found
  cases type with
  | void | entity | tuple | sequence | nullable | unknown => cases found
  | _ => obtain rfl := Option.some.inj found; exact plain_text _ rfl

theorem datePart_plain {format : String} (plain : Plain format) : PlainSpelling (datePart format) := by
  have opening : Plain "strftime('" := plain_text _ rfl
  have rest : Plain "', " := plain_text _ rfl
  exact ⟨plain_text _ rfl, (opening.append plain).append rest, plain_text _ rfl, opens_text _ _ rfl⟩

theorem sqlite_routine {routine : Routine} {s : RoutineSpelling} (clean : ∀ t ∈ routine.words, Plain t)
    (found : sqlite.routine routine = some s) : PlainSpelling s := by
  cases routine with
  | concat => obtain rfl := Option.some.inj found; exact ⟨plain_text _ rfl, plain_text [] rfl, plain_text [] rfl, opens_nothing⟩
  | substring => obtain rfl := Option.some.inj found; exact plain_name (plain_text _ rfl)
  | now =>
    obtain rfl := Option.some.inj found
    exact ⟨plain_text _ rfl, plain_text _ rfl, plain_text [] rfl, opens_nothing⟩
  | year => obtain rfl := Option.some.inj found; exact datePart_plain (plain_text _ rfl)
  | month => obtain rfl := Option.some.inj found; exact datePart_plain (plain_text _ rfl)
  | day => obtain rfl := Option.some.inj found; exact datePart_plain (plain_text _ rfl)
  | _ => exact standardRoutine_plain clean found

theorem bit_plain (b : Bool) : Plain (if b then "1" else "0") := by
  cases b with
  | true => exact (plain_text _ rfl : Plain "1")
  | false => exact (plain_text _ rfl : Plain "0")

theorem sqlite_binary (bytes : List UInt8) : Plain (sqlite.binary bytes) := by
  have opening : Plain "X'" := plain_text _ rfl
  have closing : Plain "'" := plain_text _ rfl
  exact (opening.append (plain_hexadecimal bytes)).append closing

theorem sqlite_writes : sqlite.Writes Plain Opens where
  ident := standardQuote_plain
  string := singleQuote_plain
  literal := plain_literal (d := sqlite) singleQuote_plain bit_plain sqlite_binary
  typeName _ := sqlite_typeName
  routine := sqlite_routine
  aggregate := standardAggregate_plain
  joinKeyword {kind _} := standardJoin_plain kind
  unboundedLimit found := by obtain rfl := Option.some.inj found; exact plain_text _ rfl
  forUpdate found := by cases found
  autoIncrement := (plain_text _ rfl : Plain "AUTOINCREMENT")
  tableGuard _ found := by cases found
  indexGuard _ _ found := by cases found
  deleteFrom := standardDelete_plain

variable (paging : Paging)

theorem sqlServer_typeName {type : DataType} {name : String} (written : (sqlServer paging).typeName type = .ok name) :
    Plain name := by
  have found := columnType_of_typeName written
  revert found
  generalize DataType.underlying _ = type
  intro found
  cases type with
  | void | entity | tuple | sequence | nullable | unknown => cases found
  | _ => obtain rfl := Option.some.inj found; exact plain_text _ rfl

theorem sqlServer_routine {routine : Routine} {s : RoutineSpelling} (clean : ∀ t ∈ routine.words, Plain t)
    (found : (sqlServer paging).routine routine = some s) : PlainSpelling s := by
  cases routine with
  | concat => obtain rfl := Option.some.inj found; exact ⟨plain_text _ rfl, plain_text [] rfl, plain_text [] rfl, opens_nothing⟩
  | length | now => obtain rfl := Option.some.inj found; exact plain_name (plain_text _ rfl)
  | year | month | day =>
    obtain rfl := Option.some.inj found
    exact ⟨plain_text _ rfl, plain_text _ rfl, plain_text [] rfl, opens_nothing⟩
  | startsWith | endsWith | containsString =>
    obtain rfl := Option.some.inj found
    exact ⟨plain_text _ rfl, plain_text _ rfl, plain_text _ rfl, opens_text _ _ rfl⟩
  | _ => exact standardRoutine_plain clean found

theorem sqlServer_aggregate (kind : AggregateKind) : Plain ((sqlServer paging).aggregate kind) := by
  cases kind with
  | longCount => exact (plain_text _ rfl : Plain "COUNT_BIG")
  | count => exact standardAggregate_plain .count
  | sum => exact standardAggregate_plain .sum
  | min => exact standardAggregate_plain .min
  | max => exact standardAggregate_plain .max
  | average => exact standardAggregate_plain .average

theorem sqlServer_join {kind : JoinKind} {words : String} (found : (sqlServer paging).joinKeyword kind = some words) :
    Plain words := by
  cases kind with
  | crossApply | outerApply => obtain rfl := Option.some.inj found; exact plain_text _ rfl
  | inner => exact standardJoin_plain .inner found
  | left => exact standardJoin_plain .left found
  | right => exact standardJoin_plain .right found
  | full => exact standardJoin_plain .full found
  | cross => exact standardJoin_plain .cross found

theorem sqlServer_binary (bytes : List UInt8) : Plain ((sqlServer paging).binary bytes) :=
  (plain_text _ rfl : Plain "0x").append (plain_hexadecimal bytes)

theorem sqlServer_tableGuard {owner words : String} (plain : Plain owner)
    (found : (sqlServer paging).tableGuard owner = some words) : Plain words := by
  have opening : Plain "IF OBJECT_ID(" := plain_text _ rfl
  have closing : Plain ", 'U') IS NULL" := plain_text _ rfl
  obtain rfl := Option.some.inj found
  exact (opening.append (nationalQuote_plain plain)).append closing

theorem sqlServer_indexGuard {owner index words : String} (ofOwner : Plain owner) (ofIndex : Plain index)
    (found : (sqlServer paging).indexGuard owner index = some words) : Plain words := by
  have opening : Plain "IF NOT EXISTS (SELECT * FROM sys.indexes WHERE name = " := plain_text _ rfl
  have middle : Plain " AND object_id = OBJECT_ID(" := plain_text _ rfl
  have closing : Plain "))" := plain_text _ rfl
  obtain rfl := Option.some.inj found
  exact (((opening.append (nationalQuote_plain ofIndex)).append middle).append
    (nationalQuote_plain ofOwner)).append closing

theorem sqlServer_deleteFrom {owner : String} {label : Option String} (plain : Plain owner)
    (labels : ∀ l ∈ label, Plain l) : Plain ((sqlServer paging).deleteFrom owner label) := by
  cases label with
  | none => exact (plain_text _ rfl : Plain "DELETE FROM ").append (bracketQuote_plain plain)
  | some l =>
    have opening : Plain "DELETE " := plain_text _ rfl
    have reads : Plain " FROM " := plain_text _ rfl
    have renamed : Plain " AS " := plain_text _ rfl
    have label := bracketQuote_plain (labels l rfl)
    exact ((((opening.append label).append reads).append (bracketQuote_plain plain)).append renamed).append label

theorem sqlServer_writes : (sqlServer paging).Writes Plain Opens where
  ident := bracketQuote_plain
  string := nationalQuote_plain
  literal := plain_literal (d := sqlServer paging) nationalQuote_plain bit_plain (sqlServer_binary paging)
  typeName _ := sqlServer_typeName paging
  routine := sqlServer_routine paging
  aggregate := sqlServer_aggregate paging
  joinKeyword := sqlServer_join paging
  unboundedLimit found := by cases found
  forUpdate found := by cases found
  autoIncrement := (plain_text _ rfl : Plain "IDENTITY(1, 1)")
  tableGuard := sqlServer_tableGuard paging
  indexGuard := sqlServer_indexGuard paging
  deleteFrom := sqlServer_deleteFrom paging

end Dialect

theorem Shipped.writes (s : Shipped) : s.dialect.Writes Plain Opens := by
  cases s with
  | postgres => exact Dialect.postgres_writes
  | sqlite => exact Dialect.sqlite_writes
  | sqlServer paging => exact Dialect.sqlServer_writes paging

end QueryTree
