import QueryTree.Proofs.Rows.Numbers

/-! The rows of a page.

The rows with the numbers above one bound and up to another, put in the order of their numbers, are those that are left
when the first are dropped and some are taken. So a page has the rows of the select it is made of, and a select over
such pages has the rows that it had.
-/

set_option autoImplicit false

namespace QueryTree.Paging

/-! ### Lists -/

section Lists

variable {α : Type} {p : α → Bool} {l : List α}

theorem filter_drop {first : Nat} (kept : ∀ k (within : k < l.length), p l[k] = decide (first ≤ k)) :
    l.filter p = l.drop first := by
  induction l generalizing first with
  | nil => simp
  | cons x rest ih =>
    have later (k : Nat) (within : k < rest.length) := kept (k + 1) (Nat.succ_lt_succ within)
    have here := kept 0 (Nat.zero_lt_succ _)
    cases first with
    | zero =>
      rw [List.filter_cons_of_pos (by simpa using here), @ih 0 fun k within => by simpa using later k within]
      rfl
    | succ first =>
      rw [List.filter_cons_of_neg (by simpa using here), @ih first fun k within => by simpa using later k within]
      rfl

theorem filter_take {count : Nat} (kept : ∀ k (within : k < l.length), p l[k] = decide (k < count)) :
    l.filter p = l.take count := by
  induction l generalizing count with
  | nil => simp
  | cons x rest ih =>
    have later (k : Nat) (within : k < rest.length) := kept (k + 1) (Nat.succ_lt_succ within)
    have here := kept 0 (Nat.zero_lt_succ _)
    cases count with
    | zero =>
      rw [List.filter_cons_of_neg (by simpa using here), @ih 0 fun k within => by simpa using later k within]
      rfl
    | succ count =>
      rw [List.filter_cons_of_pos (by simpa using here), @ih count fun k within => by simpa using later k within]
      rfl

end Lists

theorem lookup_column {columns : List (Binding Node)} (distinct : (columns.map (·.name)).Nodup) (f : Node → Value)
    {b : Binding Node} (column : b ∈ columns) :
    (columns.map fun c => (c.name, f c.expr)).lookup b.name = some (f b.expr) := by
  induction columns with
  | nil => cases column
  | cons first rest ih =>
    obtain ⟨fresh, distinct⟩ := List.nodup_cons.mp distinct
    rw [List.map_cons, List.lookup_cons]
    rcases List.mem_cons.mp column with rfl | later
    · simp
    · have other : (b.name == first.name) = false := by
        have member : b.name ∈ rest.map (·.name) := List.mem_map_of_mem later
        exact beq_eq_false_iff_ne.mpr fun same => fresh (by rwa [same] at member)
      simp [other, ih distinct later]

theorem lookup_none {columns : List (Binding Node)} {name : String} (f : Node → Value)
    (missing : name ∉ columns.map (·.name)) : (columns.map fun c => (c.name, f c.expr)).lookup name = none := by
  rw [List.lookup_eq_none_iff]
  rintro _ member
  obtain ⟨c, column, rfl⟩ := List.mem_map.mp member
  simpa using fun same : name = c.name => missing (same ▸ List.mem_map_of_mem column)

/-! ### A page -/

/-- Names its columns, each once and none like the number of a row, and puts its rows in order. -/
structure Pageable (s : Select Node) : Prop where
  named : s.projectsStar = false
  names : (s.columns.map (·.name)).Nodup
  unnumbered : Amend.rowNumberName ∉ s.columns.map (·.name)
  distinct : s.distinct = false
  ordered : s.orderBy ≠ []

def innerLabel (s : Select Node) : String := s.label ++ "_inner"

def number (s : Select Node) : Node := .column { label := innerLabel s, name := Amend.rowNumberName, type := .int64 }

namespace Pageable

variable {s : Select Node} {label : String}

theorem windowOrder (pageable : Pageable s) : Amend.windowOrder s = s.orderBy := by
  simp [Amend.windowOrder, pageable.ordered]

theorem columns_numbered (pageable : Pageable s) : (Amend.numbered s label).columns =
    s.columns ++ [⟨Amend.rowNumberName, .window (.call .rowNumber [] .int64) s.orderBy⟩] := by
  obtain ⟨nonempty, -⟩ := Bool.or_eq_false_iff.mp pageable.named
  simp [Amend.numbered, Amend.unpaged, nonempty, pageable.windowOrder]

theorem aggregates_numbered (pageable : Pageable s) : aggregates (Amend.numbered s label) = aggregates s := by
  have call : (Node.call .rowNumber [] .int64).aggregates = false := Node.fold_mk _ _
  have window : (Node.window (.call .rowNumber [] .int64) s.orderBy).aggregates =
      s.orderBy.any (·.expr.aggregates) := by
    refine (Node.fold_mk _ _).trans ?_
    show (Node.aggregates _ :: (s.orderBy.map (·.map Node.aggregates)).map (·.expr)).any id = _
    rw [List.any_cons, call, List.map_map, List.any_map]
    rfl
  rw [aggregates, pageable.columns_numbered, List.any_append, List.any_cons, window]
  simp [aggregates, Amend.numbered, Amend.unpaged]

theorem named_numbered (pageable : Pageable s) : (Amend.numbered s label).projectsStar = false := by
  obtain ⟨-, wild⟩ := Bool.or_eq_false_iff.mp pageable.named
  have name : (Amend.rowNumberName == Node.wildcard) = false := by decide
  rw [Select.projectsStar, pageable.columns_numbered, List.any_append, wild]
  simp [Binding.isWildcard, name]

variable (d : Database)

theorem yielded_numbered (pageable : Pageable s) : d.yielded (Amend.numbered s label) = d.yielded s := by
  unfold Database.yielded Database.yieldedFrom
  rw [pageable.aggregates_numbered]
  rfl

theorem project_numbered (pageable : Pageable s) (rows : List Row) (r : Row × Nat) :
    d.project (Amend.numbered s label) rows r =
      d.project s rows r ++ [(Amend.rowNumberName, d.number (d.rowNumber s.orderBy rows r.2))] := by
  rw [d.project_named pageable.named_numbered, d.project_named pageable.named, pageable.columns_numbered,
    List.map_append]
  rfl

theorem rows_numbered (pageable : Pageable s) : (d.rows (.select (Amend.numbered s label))).Perm
    ((d.sorted s.orderBy (d.yielded s)).map (d.project (Amend.numbered s label) (d.yielded s))) := by
  rw [d.rows_select, d.answer_plain rfl rfl rfl, pageable.yielded_numbered]
  exact ((d.sorted_perm _ _).trans (d.sorted_perm _ _).symm).map _

/-! Read from outside, by the label of the select in a page. -/

theorem number_read (pageable : Pageable s) (rows : List Row) (r : Row × Nat) :
    (d.row (innerLabel s) (d.project (Amend.numbered s label) rows r)).value (number s) =
      d.number (d.rowNumber s.orderBy rows r.2) := by
  have own : (d.project s rows r).lookup Amend.rowNumberName = none := by
    rw [d.project_named pageable.named]
    exact lookup_none _ pageable.unnumbered
  rw [pageable.project_numbered, number, d.row_column, List.lookup_append, own]
  simp

theorem column_read (pageable : Pageable s) (rows : List Row) (r : Row × Nat) {b : Binding Node}
    (column : b ∈ s.columns) (type : DataType) :
    (d.row (innerLabel s) (d.project (Amend.numbered s label) rows r)).value
      (.column { label := innerLabel s, name := b.name, type }) = d.cell rows r b.expr := by
  have own : (d.project s rows r).lookup b.name = some (d.cell rows r b.expr) := by
    rw [d.project_named pageable.named]
    exact lookup_column pageable.names _ column
  rw [pageable.project_numbered, d.row_column, List.lookup_append, own]
  rfl

/-- The rows of a select with their numbers, in their order, as a select over it reads them. -/
def numberedRows (s : Select Node) : List Row :=
  ((d.sorted s.orderBy (d.yielded s)).map (d.project (Amend.numbered s (innerLabel s)) (d.yielded s))).map
    (d.row (innerLabel s))

theorem numberedRows_number (pageable : Pageable s) (k : Nat) (within : k < (numberedRows d s).length) :
    d.whole ((numberedRows d s)[k].value (number s)) = some ((k : Int) + 1) := by
  simp only [numberedRows, List.length_map] at within
  simp only [numberedRows, List.getElem_map, pageable.number_read, d.rowNumber_sorted _ _ within, d.whole_number]
  rfl

/-- What a page reads from a row of the select in it. -/
def reads (s : Select Node) (r : Row) : Cells :=
  s.columns.map fun b => (b.name, r.value (.column ⟨innerLabel s, b.name, b.expr.dataType⟩))

variable (skip : Node)

theorem columns_window (pageable : Pageable s) :
    (Amend.window s skip).columns = Amend.columnsFrom (innerLabel s) s.columns :=
  if_neg (by simp [Amend.noWildcard pageable.named])

theorem project_window (pageable : Pageable s) (rows : List Row) :
    d.project (Amend.window s skip) rows = reads s ∘ Prod.fst := by
  have columns := pageable.columns_window skip
  have named : (Amend.window s skip).projectsStar = false := by
    refine (Select.projectsStar_names ?_).trans pageable.named
    rw [columns, Amend.columnsFrom_names]
  funext r
  rw [d.project_named named, columns, Amend.columnsFrom, List.map_map]
  rfl

theorem aggregates_window (pageable : Pageable s) : aggregates (Amend.window s skip) = false := by
  have column (c : Column) : (Node.column c).aggregates = false := Node.fold_mk _ _
  rw [aggregates, pageable.columns_window, Amend.columnsFrom, List.any_map]
  simp [Function.comp_def, column, Amend.window]

/-- A page has the numbered rows that its filter lets pass, in the order of their numbers. -/
theorem rows_window (pageable : Pageable s) : d.rows (.select (Amend.window s skip)) =
    ((numberedRows d s).filter (Database.passes (Amend.window s skip).filter)).map (reads s) := by
  have perm : ((d.arrange (d.rows (.select (Amend.numbered s (innerLabel s))))).map (d.row (innerLabel s))).Perm
      (numberedRows d s) := ((d.arranged _).trans (pageable.rows_numbered d)).map _
  have found : d.yielded (Amend.window s skip) =
      ((d.arrange (d.rows (.select (Amend.numbered s (innerLabel s))))).map (d.row (innerLabel s))).filter
        (Database.passes (Amend.window s skip).filter) :=
    d.yielded_over rfl rfl (pageable.aggregates_window skip)
  have order : (Amend.window s skip).orderBy = [{ expr := number s }] := rfl
  have sorted := filter_insertionSort (d.key_total (number s)) (d.key_trans (number s))
    (Database.passes (Amend.window s skip).filter)
  rw [d.rows_select, d.answer_plain rfl rfl rfl, pageable.project_window, ← List.map_map, d.sorted_rows, found, order,
    ← sorted, d.sort_numbered perm (pageable.numberedRows_number d)]

/-- Read from outside, the numbered rows are the rows of the select itself in their order. -/
theorem reads_numberedRows (pageable : Pageable s) :
    (numberedRows d s).map (reads s) = (d.sorted s.orderBy (d.yielded s)).map (d.project s (d.yielded s)) := by
  rw [numberedRows, List.map_map, List.map_map]
  refine List.map_congr_left fun r _ => ?_
  rw [d.project_named pageable.named]
  exact List.map_congr_left fun b column => by rw [pageable.column_read d _ r column]

variable {skip} {take : Node} {a b : Nat}

theorem numberedRows_row (k : Nat) (within : k < (numberedRows d s).length) :
    ∃ r, (numberedRows d s)[k] = d.row (innerLabel s) r := by
  simp only [numberedRows, List.getElem_map]
  exact ⟨_, rfl⟩

theorem lower_passes (pageable : Pageable s) (first : d.Counts (innerLabel s) skip a) (k : Nat)
    (within : k < (numberedRows d s).length) :
    (numberedRows d s)[k].value (.ofBinary .gt (number s) skip) = .bool (decide (a ≤ k)) := by
  have isNumber := pageable.numberedRows_number d k within
  obtain ⟨r, row⟩ := numberedRows_row d k within
  rw [row] at isNumber ⊢
  rw [d.row_operation, d.binary_greater isNumber (first r)]
  exact congrArg Value.bool (decide_eq_decide.mpr (by omega))

theorem upper_passes (pageable : Pageable s) {bound : Node} (last : d.Counts (innerLabel s) bound b) (k : Nat)
    (within : k < (numberedRows d s).length) :
    (numberedRows d s)[k].value (.ofBinary .ltEq (number s) bound) = .bool (decide (k < b)) := by
  have isNumber := pageable.numberedRows_number d k within
  obtain ⟨r, row⟩ := numberedRows_row d k within
  rw [row] at isNumber ⊢
  rw [d.row_operation, d.binary_atMost isNumber (last r)]
  exact congrArg Value.bool (decide_eq_decide.mpr (by omega))

theorem filter_unlimited (unlimited : s.take = none) :
    (Amend.window s skip).filter = some (.ofBinary .gt (number s) skip) := by
  simp only [Amend.window, unlimited]
  rfl

theorem filter_limited (limited : s.take = some take) : (Amend.window s skip).filter =
    some (.both (.ofBinary .gt (number s) skip) (.ofBinary .ltEq (number s) (Amend.upperBound skip take))) := by
  simp only [Amend.window, limited]
  rfl

theorem rows_rest (pageable : Pageable s) (unlimited : s.take = none) (first : d.Counts (innerLabel s) skip a) :
    d.rows (.select (Amend.window s skip)) =
      ((d.sorted s.orderBy (d.yielded s)).drop a).map (d.project s (d.yielded s)) := by
  have kept (k : Nat) (within : k < (numberedRows d s).length) :
      Database.passes (Amend.window s skip).filter (numberedRows d s)[k] = decide (a ≤ k) := by
    simp [filter_unlimited unlimited, Database.passes, pageable.lower_passes d first k within]
  rw [pageable.rows_window, filter_drop kept, List.map_drop, pageable.reads_numberedRows, List.map_drop]

theorem rows_page (pageable : Pageable s) (limited : s.take = some take) (first : d.Counts (innerLabel s) skip a)
    (second : d.Counts (innerLabel s) take b) : d.rows (.select (Amend.window s skip)) =
      (((d.sorted s.orderBy (d.yielded s)).drop a).take b).map (d.project s (d.yielded s)) := by
  -- The upper bound lets the first `a + b` rows pass, of which the lower bound then drops `a`.
  let lower (r : Row) : Bool := r.value (.ofBinary .gt (number s) skip) = .bool true
  let upper (r : Row) : Bool := r.value (.ofBinary .ltEq (number s) (Amend.upperBound skip take)) = .bool true
  have both : ∀ r ∈ numberedRows d s, Database.passes (Amend.window s skip).filter r = (lower r && upper r) := by
    intro r member
    obtain ⟨k, within, rfl⟩ := List.getElem_of_mem member
    obtain ⟨r, row⟩ := numberedRows_row d k within
    rw [row, filter_limited limited, ← Bool.decide_and]
    exact decide_eq_decide.mpr ((d.row_operation _ r _ _ _).symm ▸ d.binary_and _ _)
  have upTo : (numberedRows d s).filter upper = (numberedRows d s).take (a + b) :=
    filter_take fun k within => by simp [upper, pageable.upper_passes d (first.upperBound d second) k within]
  have above : ((numberedRows d s).take (a + b)).filter lower = ((numberedRows d s).take (a + b)).drop a := by
    refine filter_drop fun k within => ?_
    have inside : k < (numberedRows d s).length := within.trans_le (List.length_take_le' _ _)
    simp [lower, pageable.lower_passes d first k inside]
  rw [pageable.rows_window, List.filter_congr both, ← List.filter_filter, upTo, above, List.drop_take,
    Nat.add_sub_cancel_left, List.map_take, List.map_drop, pageable.reads_numberedRows, List.map_take, List.map_drop]

theorem map (pageable : Pageable s) (f : Node → Node) : Pageable (s.map f) := by
  have same := Select.names_map s f
  exact ⟨(Select.projectsStar_names same).trans pageable.named, same ▸ pageable.names, same ▸ pageable.unnumbered,
    pageable.distinct, by simpa [Select.map] using pageable.ordered⟩

end Pageable

/-- What a page of a select is to be. Its rows are those that the select's source, filter and groups yield, in the
select's order, less the first and no more than are taken. -/
structure PageOf (d : Database) (s : Select Node) (skip : Node) (p : Select Node) : Prop where
  rest (a : Nat) : s.take = none → d.Counts (innerLabel s) skip a →
    d.rows (.select p) = ((d.sorted s.orderBy (d.yielded s)).drop a).map (d.project s (d.yielded s))
  page (take : Node) (a b : Nat) : s.take = some take → d.Counts (innerLabel s) skip a →
    d.Counts (innerLabel s) take b → d.rows (.select p) =
      (((d.sorted s.orderBy (d.yielded s)).drop a).take b).map (d.project s (d.yielded s))
  /-- The bound of two integer literals is a literal, as long as their sum fits in 64 bits. -/
  bound (take : Node) : s.take = some take → ∃ bound, p.filter = some (.both (.ofBinary .gt (number s) skip)
    (.ofBinary .ltEq (number s) bound)) ∧ ∀ v w x y type other, skip = .constant v type → take = .constant w other →
      v.integer? = some x → w.integer? = some y →
        (fitsInt64 (x.toInt + y.toInt) = true →
          ∃ u z, bound = .literal u ∧ u.integer? = some z ∧ z.toInt = x.toInt + y.toInt) ∧
        (fitsInt64 (x.toInt + y.toInt) = false → bound = .ofBinary .add skip take)

theorem pageOf_paginate (d : Database) {s : Select Node} (pageable : Pageable s) (skip : Node) :
    PageOf d s skip (Amend.paginate s skip) := by
  rw [Amend.paginate, if_neg (by simp [pageable.distinct])]
  refine ⟨fun a unlimited => pageable.rows_rest d unlimited, fun take a b limited => pageable.rows_page d limited, ?_⟩
  intro take limited
  refine ⟨Amend.upperBound skip take, Pageable.filter_limited limited, ?_⟩
  rintro v w x y type other rfl rfl first second
  exact Amend.upperBound_literals type other first second

/-- Every select that skips rows becomes a page of itself, its parts being amended first, and none is left that does. -/
theorem rowNumbers_pages (d : Database) :
    (∀ (s : Select Node) (skip : Node), Pageable s → s.skip = some skip →
      ∃ p, Amend.rowNumbers.amend (.select s) = .select p ∧
        PageOf d (s.map Amend.rowNumbers.amend) (Amend.rowNumbers.amend skip) p) ∧
    (∀ s : Select Node, (∀ c ∈ s.children, c.SkipsNone) → s.map Amend.rowNumbers.amend = s) ∧
    ∀ n, (Amend.rowNumbers.amend n).SkipsNone := by
  refine ⟨fun s skip pageable skips => ?_, fun s none => Amend.rowNumbers_map none, Amend.rowNumbers_skipsNone⟩
  exact ⟨_, Amend.rowNumbers_paged skips, pageOf_paginate d (pageable.map _) _⟩

/-! ### A database -/

/-- A whole number, as an integer while it fits. -/
def ofWhole (n : Int) : Value := if fitsInt64 n then .int64 (.ofInt n) else .decimal n.repr

/-- The number of digits behind a sign. -/
def wholeOf (chars : List Char) : Option Int :=
  let digits := (Double.splitSign chars).2
  let value : Int := Nat.ofDigitChars 10 digits 0
  if digits.all Char.isDigit then some (if (Double.splitSign chars).1 then -value else value) else none

theorem wholeOf_repr (n : Int) : wholeOf n.repr.toList = some n := by
  have digits (k : Nat) : (Nat.toDigits 10 k).all Char.isDigit = true :=
    List.all_eq_true.mpr fun _ member => Nat.isDigit_of_mem_toDigits (by decide) (by decide) member
  cases n with
  | negSucc k =>
    have spelled : (Int.negSucc k).repr.toList = '-' :: Nat.toDigits 10 (k + 1) := by
      show ("-" ++ (k + 1).repr).toList = _
      rw [String.toList_append, Nat.toList_repr]
      rfl
    rw [wholeOf, spelled]
    show (if (Nat.toDigits 10 (k + 1)).all Char.isDigit then
      some (-(Nat.ofDigitChars 10 (Nat.toDigits 10 (k + 1)) 0 : Int)) else none) = _
    rw [if_pos (digits (k + 1)), Nat.ofDigitChars_ten_toDigits]
    rfl
  | ofNat k =>
    have unsigned : Double.splitSign (Nat.toDigits 10 k) = (false, Nat.toDigits 10 k) := by
      have plain := digits k
      unfold Double.splitSign
      split
      -- A sign is no digit.
      · rename_i rest spelled
        rw [spelled] at plain
        cases plain
      · rename_i rest spelled
        rw [spelled] at plain
        cases plain
      · rfl
    have spelled : (Int.ofNat k).repr.toList = Nat.toDigits 10 k := Nat.toList_repr
    rw [wholeOf, spelled, unsigned]
    show (if (Nat.toDigits 10 k).all Char.isDigit then some (Nat.ofDigitChars 10 (Nat.toDigits 10 k) 0 : Int) else none) = _
    rw [if_pos (digits k), Nat.ofDigitChars_ten_toDigits]
    rfl

def toWhole? : Value → Option Int
  | .decimal s => wholeOf s.toList
  | v => v.integer?.map Int64.toInt

theorem toWhole_ofWhole (n : Int) : toWhole? (ofWhole n) = some n := by
  unfold ofWhole
  split
  · rename_i fits
    simp only [fitsInt64, Bool.and_eq_true, decide_eq_true_eq] at fits
    exact congrArg some (Int64.toInt_ofInt_of_le (by omega) (by omega))
  · exact wholeOf_repr n

/-- Compares and adds whole numbers, and finds the same rows wherever it reads no select. -/
def Database.ofRows (rows : List Row) : Database where
  table _ := ⟨fun _ => false, []⟩
  parameter _ := .null
  literal _ := .null
  call _ _ := .null
  compare op a b := do
    let m ← toWhole? a
    let n ← toWhole? b
    match op with
    | .gt => some (decide (n < m))
    | .ltEq => some (decide (m ≤ n))
    | _ => none
  reckon op a b := ((do
    let m ← toWhole? a
    let n ← toWhole? b
    if op = .add then some (ofWhole (m + n)) else none) : Option Value).getD .null
  negate _ := .null
  precedes a b := (toWhole? a).all fun m => (toWhole? b).any fun n => decide (m ≤ n)
  total a b := by
    cases toWhole? a <;> cases toWhole? b <;> simp [Int.le_total]
  trans a b c := by
    cases toWhole? a <;> cases toWhole? b <;> cases toWhole? c <;> simp
    exact Int.le_trans
  yields _ _ _ _ := rows
  outer _ := .null
  nested _ _ := .null
  arrange := List.reverse
  arranged := List.reverse_perm
  whole := toWhole?
  number n := ofWhole n
  whole_null := rfl
  whole_integer v n known := by cases v <;> simp_all [toWhole?, Value.integer?]
  whole_number n := toWhole_ofWhole n
  greater a b m n first second := by simp [first, second]
  atMost a b m n first second := by simp [first, second]
  sum a b m n first second := by simp [first, second, toWhole_ofWhole]
  ordered a b m n first second := by simp [first, second]

/-- Two rows of four, of which two are equal in the order. -/
theorem rowNumbers_pages_rows :
    let row (name : String) (x : Int32) : Row :=
      { value := fun n => n.column?.elim .null fun c => if c.name == "x" then .int32 x else .text name
        everything := [] }
    let column (name : String) (type : DataType) : Node := .column ⟨"t", name, type⟩
    let s : Select Node :=
      { label := "s", columns := [⟨"name", column "name" .text⟩], source := some (.table "T" "t" (.entity "T"))
        orderBy := [{ expr := column "x" .int32 }], skip := some (.literal (.int32 1))
        take := some (.literal (.int32 2)) }
    Pageable s ∧ ∃ p, Amend.rowNumbers.amend (.select s) = .select p ∧
      (Database.ofRows [row "a" 3, row "b" 1, row "c" 2, row "d" 1]).rows (.select p) =
        [[("name", .text "d")], [("name", .text "c")]] := by
  intro row column s
  let d := Database.ofRows [row "a" 3, row "b" 1, row "c" 2, row "d" 1]
  have pageable : Pageable s := ⟨rfl, by decide, by decide, rfl, by simp [s]⟩
  obtain ⟨p, amended, page⟩ := (rowNumbers_pages d).1 s _ pageable rfl
  refine ⟨pageable, p, amended, ?_⟩
  have given (v : Value) : Amend.rowNumbers.amend (.literal v) = .literal v :=
    Amend.rowNumbers_still (Amend.skipsNone_numbering.literal v)
  have first : d.Counts (innerLabel s) (Amend.rowNumbers.amend (.literal (.int32 1))) 1 :=
    given _ ▸ d.counts_literal rfl (by decide)
  have second : d.Counts (innerLabel s) (Amend.rowNumbers.amend (.literal (.int32 2))) 2 :=
    given _ ▸ d.counts_literal rfl (by decide)
  exact (page.page _ 1 2 rfl first second).trans (by decide +kernel)

/-! ### Selects over pages -/

/-- Comes to this number wherever it stands. -/
def Fixed (d : Database) (n : Node) (k : Nat) : Prop := ∀ columns, d.whole (d.value columns n) = some (k : Int)

/-- Skips nothing, or as many rows as there are to skip and to take, beyond what its source skips. -/
structure Limited (d : Database) (q : Select Node) : Prop where
  parts : ∀ c ∈ ({ q with source := none } : Select Node).children, c.SkipsNone
  pageable : q.skip ≠ none → Pageable q
  skip : ∀ n ∈ q.skip, ∃ k, Fixed d n k
  take : ∀ n ∈ q.take, ∃ k, Fixed d n k

/-- Selects over selects, each of which may skip rows, down to a source that skips none. -/
inductive Chain (d : Database) : Select Node → Prop
  | bottom {q : Select Node} : Limited d q → (∀ n ∈ q.source, n.SkipsNone) → Chain d q
  | above {q inner : Select Node} : Limited d q → q.source = some (.select inner) → q.groupBy = [] →
      aggregates q = false → Chain d inner → Chain d q

variable {d : Database} {q : Select Node}

theorem Fixed.counts {n : Node} {k : Nat} (fixed : Fixed d n k) (label : String) : d.Counts label n k :=
  fun _ => fixed _

theorem Fixed.count {n : Node} {k : Nat} (fixed : Fixed d n k) : d.count n = k := by
  simp [Database.count, fixed d.outer]

namespace Limited

theorem map (limited : Limited d q) :
    q.map Amend.rowNumbers.amend = { q with source := q.source.map Amend.rowNumbers.amend } := by
  have rest := Amend.rowNumbers_map limited.parts
  calc q.map Amend.rowNumbers.amend
    _ = { ({ q with source := none } : Select Node).map Amend.rowNumbers.amend with
          source := q.source.map Amend.rowNumbers.amend } := rfl
    _ = _ := by rw [rest]

theorem still (limited : Limited d q) {n : Node} (child : n ∈ ({ q with source := none } : Select Node).children) :
    Amend.rowNumbers.amend n = n := Amend.rowNumbers_still (limited.parts n child)

theorem rows_page (limited : Limited d q) {source : Option Node} (kept : d.yielded { q with source } = d.yielded q)
    {skip : Node} (skips : q.skip = some skip) :
    d.rows (.select (Amend.paginate { q with source } skip)) = d.rows (.select q) := by
  obtain ⟨named, names, unnumbered, distinct, ordered⟩ := limited.pageable (by simp [skips])
  have page := pageOf_paginate d (s := { q with source }) ⟨named, names, unnumbered, distinct, ordered⟩ skip
  obtain ⟨a, first⟩ := limited.skip skip skips
  rw [d.rows_select q, ← kept]
  rcases Option.eq_none_or_eq_some q.take with takes | ⟨take, takes⟩
  · rw [page.rest a takes (first.counts _), d.answer_skipped distinct skips takes, first.count]
    rfl
  · obtain ⟨b, second⟩ := limited.take take takes
    rw [page.page take a b takes (first.counts _) (second.counts _), d.answer_limited distinct skips takes, first.count,
      second.count]
    rfl

theorem rows_amended (limited : Limited d q)
    (kept : d.yielded { q with source := q.source.map Amend.rowNumbers.amend } = d.yielded q) :
    ∃ p, Amend.rowNumbers.amend (.select q) = .select p ∧ p.label = q.label ∧
      d.rows (.select p) = d.rows (.select q) := by
  cases skips : q.skip with
  | none =>
    have amended : Amend.rowNumbers.amend (.select q) = .select (q.map Amend.rowNumbers.amend) :=
      Amend.rowNumbers_kept (by rintro _ ⟨⟩; exact skips)
    refine ⟨_, amended, rfl, ?_⟩
    rw [limited.map, d.rows_select, d.rows_select, kept]
    rfl
  | some skip =>
    have given : Amend.rowNumbers.amend skip = skip := limited.still (by simp [Select.children, skips])
    refine ⟨_, Amend.rowNumbers_paged skips, ?_, ?_⟩
    · exact Amend.paginate_label _ _
    · rw [limited.map, given]
      exact limited.rows_page kept skips

end Limited

/-- Paging keeps the rows, however many of the selects skip some. -/
theorem Chain.rows_amended (chain : Chain d q) : ∃ p, Amend.rowNumbers.amend (.select q) = .select p ∧
    p.label = q.label ∧ d.rows (.select p) = d.rows (.select q) := by
  induction chain with
  | @bottom q limited none =>
    refine limited.rows_amended ?_
    have same : q.source.map Amend.rowNumbers.amend = q.source := by
      cases source : q.source with
      | none => rfl
      | some n => rw [Option.map_some, Amend.rowNumbers_still (none n source)]
    rw [same]
  | @above q inner limited source groups plain _ ih =>
    obtain ⟨p, amended, label, rows⟩ := ih
    refine limited.rows_amended ?_
    rw [source, Option.map_some, amended]
    rw [d.yielded_over source groups plain, ← label, ← rows]
    exact d.yielded_over rfl groups plain

end QueryTree.Paging
