import QueryTree.Proofs.Amend.RowNumbers
import QueryTree.Proofs.Rows.Selects

/-! The numbers of rows in an order.

A select puts the rows that its source, its filter and its groups yield in order and reads its columns from each. The
number of a row is its position in an order, from one, whatever order the rows are found in. So rows with their numbers
that were found in any order come in the order of their numbers.
-/

set_option autoImplicit false

namespace QueryTree.Paging

/-- A row of a result, with the names of its columns in their order. -/
abbrev Cells := List (String × Value)

/-- A row that a select reads its columns from, by the values that expressions have there. -/
structure Row where
  value : Node → Value
  /-- What a wildcard stands for. -/
  everything : Cells

/-- A database that reckons with whole numbers exactly, whatever their types and however large they are. -/
structure Database extends Engine where
  /-- The rows that a source, a filter and groups yield. The last says whether rows that are in no groups are
  aggregated. -/
  yields : Option Node → Option Node → List Node → Bool → List Row
  /-- Columns of the queries around. -/
  outer : Column → Value
  /-- Nested queries, aggregates and windows, from the columns in scope. -/
  nested : (Column → Value) → Node → Value
  /-- The order in which a select finds the rows of another. -/
  arrange : List Cells → List Cells
  arranged : ∀ rows, (arrange rows).Perm rows
  whole : Value → Option Int
  number : Nat → Value
  whole_null : whole .null = none
  whole_integer : ∀ v n, v.integer? = some n → whole v = some n.toInt
  whole_number : ∀ k : Nat, whole (number k) = some (k : Int)
  greater : ∀ a b m n, whole a = some m → whole b = some n → compare .gt a b = some (decide (n < m))
  atMost : ∀ a b m n, whole a = some m → whole b = some n → compare .ltEq a b = some (decide (m ≤ n))
  sum : ∀ a b m n, whole a = some m → whole b = some n → whole (reckon .add a b) = some (m + n)
  ordered : ∀ a b m n, whole a = some m → whole b = some n → precedes a b = decide (m ≤ n)

/-- Aggregates in its columns or its order make one row of many where there are no groups. -/
def aggregates (q : Select Node) : Bool := q.columns.any (·.expr.aggregates) || q.orderBy.any (·.expr.aggregates)

namespace Database

variable (d : Database)

/-- The value of an expression from those of the columns in scope. -/
def value (columns : Column → Value) : Node → Value :=
  Node.para fun
    | .column c => columns c
    | s => if s.isScalar then d.combine (s.map Prod.snd) else d.nested columns (.mk (s.map Prod.fst))

/-- A row of a select that goes by the label, for a select over it. -/
def row (label : String) (r : Cells) : Row where
  value := d.value fun c => if c.label == label then (r.lookup c.name).getD .null else d.outer c
  everything := r

/-! ### One select -/

/-- The first row comes no later by this key. -/
def byKey (o : OrderItem Node) (a b : Row) : Bool :=
  match o.direction with
  | .ascending => d.precedes (a.value o.expr) (b.value o.expr)
  | .descending => d.precedes (b.value o.expr) (a.value o.expr)

/-- The first key in which the rows differ decides. -/
def inOrder : List (OrderItem Node) → Row → Row → Bool
  | [], _, _ => true
  | o :: rest, a, b => d.byKey o a b && (!d.byKey o b a || inOrder rest a b)

/-- The rows in order, each with the place that it had. Rows that come neither before nor after each other stay as they
were. -/
def sorted (items : List (OrderItem Node)) (rows : List Row) : List (Row × Nat) :=
  rows.zipIdx.insertionSort fun a b => d.inOrder items a.1 b.1

def rowNumber (items : List (OrderItem Node)) (rows : List Row) (place : Nat) : Nat :=
  (d.sorted items rows).findIdx (·.2 == place) + 1

def cell (rows : List Row) (r : Row × Nat) : Node → Value
  | .window (.call .rowNumber [] _) items => d.number (d.rowNumber items rows r.2)
  | n => r.1.value n

def project (q : Select Node) (rows : List Row) (r : Row × Nat) : Cells :=
  if q.columns.isEmpty then r.1.everything
  else q.columns.flatMap fun b => if b.isWildcard then r.1.everything else [(b.name, d.cell rows r b.expr)]

def count (n : Node) : Nat := ((d.whole (d.value d.outer n)).getD 0).toNat

def limited (q : Select Node) (rows : List Cells) : List Cells :=
  let rest := q.skip.elim rows fun n => rows.drop (d.count n)
  q.take.elim rest fun n => rest.take (d.count n)

/-- The rows of a select, from those that its source, its filter and its groups yield. -/
def answer (q : Select Node) (rows : List Row) : List Cells :=
  let cells := (d.sorted q.orderBy rows).map (d.project q rows)
  d.limited q (if q.distinct then cells.eraseDups else cells)

/-! ### Selects over selects -/

def passes (filter : Option Node) (r : Row) : Bool := filter.all fun f => r.value f = .bool true

/-- What the source, the filter and the groups of a select yield, where it is over a select with these rows. -/
def yieldedFrom (q : Select Node) (below : List Cells) : List Row :=
  match q.source with
  | some (.select inner) =>
    if q.groupBy.isEmpty && !aggregates q then
      ((d.arrange below).map (d.row inner.label)).filter (passes q.filter)
    else d.yields q.source q.filter q.groupBy (aggregates q)
  | _ => d.yields q.source q.filter q.groupBy (aggregates q)

/-- The rows of a select; nothing for any other tree. -/
def rows : Node → List Cells :=
  Node.para fun
    | .select q => d.answer (q.map Prod.fst) (d.yieldedFrom (q.map Prod.fst) (q.source.elim [] Prod.snd))
    | _ => []

/-- What the source, the filter and the groups of a select yield. -/
def yielded (q : Select Node) : List Row := d.yieldedFrom q (q.source.elim [] d.rows)

/-- A whole number, whichever row of a select of that label it is read over. -/
def Counts (label : String) (n : Node) (k : Nat) : Prop := ∀ r, d.whole ((d.row label r).value n) = some (k : Int)

end Database

theorem insertionSort_perm {α : Type} {r : α → α → Prop} [DecidableRel r] {l m : List α} (total : ∀ a b, r a b ∨ r b a)
    (trans : ∀ a b c, r a b → r b c → r a c) (perm : l.Perm m) (inOrder : m.Pairwise r)
    (strict : ∀ a ∈ m, ∀ b ∈ m, r a b → r b a → a = b) : l.insertionSort r = m := by
  have : Std.Total r := ⟨total⟩
  have : IsTrans α r := ⟨trans⟩
  have same := (List.perm_insertionSort r l).trans perm
  refine List.Perm.eq_of_pairwise (fun a b first second => ?_) (List.pairwise_insertionSort r l) inOrder same
  exact strict a (same.mem_iff.mp first) b second

namespace Database

variable (d : Database) {q : Select Node} {label : String} {skip take : Node}

/-! ### Whole numbers -/

theorem value_column (columns : Column → Value) (c : Column) : d.value columns (.column c) = columns c :=
  Node.para_mk _ _

theorem value_operation (columns : Column → Value) (op : BinaryOp) (a b : Node) :
    d.value columns (.ofBinary op a b) = d.binary op (d.value columns a) (d.value columns b) := Node.para_mk _ _

theorem row_column (label : String) (r : Cells) (name : String) (type : DataType) :
    (d.row label r).value (.column { label, name, type }) = (r.lookup name).getD .null := by
  simp only [row, d.value_column, beq_self_eq_true, if_true]

theorem row_operation (label : String) (r : Cells) (op : BinaryOp) (a b : Node) :
    (d.row label r).value (.ofBinary op a b) = d.binary op ((d.row label r).value a) ((d.row label r).value b) :=
  d.value_operation _ op a b

theorem value_literal (columns : Column → Value) (v : Value) : d.value columns (.literal v) = v := Node.para_mk _ _

theorem whole_notNull {v : Value} {n : Int} (known : d.whole v = some n) : v.isNull = false := by
  cases v with
  | null => cases d.whole_null.symm.trans known
  | _ => rfl

variable {v w : Value} {m n : Int}

theorem binary_greater (first : d.whole v = some m) (second : d.whole w = some n) :
    d.binary .gt v w = .bool (decide (n < m)) := by
  simp [Engine.binary, d.whole_notNull first, d.whole_notNull second, BinaryOp.isComparison,
    d.greater v w m n first second, Truth.value]

theorem binary_atMost (first : d.whole v = some m) (second : d.whole w = some n) :
    d.binary .ltEq v w = .bool (decide (m ≤ n)) := by
  simp [Engine.binary, d.whole_notNull first, d.whole_notNull second, BinaryOp.isComparison,
    d.atMost v w m n first second, Truth.value]

theorem binary_sum (first : d.whole v = some m) (second : d.whole w = some n) :
    d.whole (d.binary .add v w) = some (m + n) := by
  simpa [Engine.binary, d.whole_notNull first, d.whole_notNull second, BinaryOp.isComparison] using
    d.sum v w m n first second

theorem whole_upperBound (columns : Column → Value) (first : d.whole (d.value columns skip) = some m)
    (second : d.whole (d.value columns take) = some n) :
    d.whole (d.value columns (Amend.upperBound skip take)) = some (m + n) := by
  rcases Amend.upperBound_cases skip take with sum | ⟨v, w, x, y, u, z, isV, isW, vIs, wIs, literal, uIs, exact⟩
  · rw [sum, d.value_operation]
    exact d.binary_sum first second
  · obtain ⟨type, rfl⟩ := Node.constant_some isV
    obtain ⟨type', rfl⟩ := Node.constant_some isW
    have isFirst : d.value columns (.constant v type) = v := Node.para_mk _ _
    have isSecond : d.value columns (.constant w type') = w := Node.para_mk _ _
    rw [isFirst, d.whole_integer v x vIs, Option.some.injEq] at first
    rw [isSecond, d.whole_integer w y wIs, Option.some.injEq] at second
    rw [literal, d.value_literal, d.whole_integer u z uIs, exact, first, second]

theorem counts_literal {n : Int64} {k : Nat} (known : v.integer? = some n) (same : n.toInt = k) :
    d.Counts label (.literal v) k := fun r => by
  have literal : (d.row label r).value (.literal v) = v := by simp only [row, d.value_literal]
  rw [literal, d.whole_integer v n known, same]

theorem Counts.upperBound {a b : Nat} (first : d.Counts label skip a) (second : d.Counts label take b) :
    d.Counts label (Amend.upperBound skip take) (a + b) := fun r =>
  (d.whole_upperBound _ (first r) (second r)).trans (by simp)

/-! ### Order -/

theorem inOrder_key (n : Node) (a b : Row) : d.inOrder [{ expr := n }] a b = d.precedes (a.value n) (b.value n) := by
  simp [inOrder, byKey]

theorem sorted_perm (items : List (OrderItem Node)) (rows : List Row) : (d.sorted items rows).Perm rows.zipIdx :=
  List.perm_insertionSort _ _

theorem sorted_rows (items : List (OrderItem Node)) (rows : List Row) :
    (d.sorted items rows).map Prod.fst = rows.insertionSort fun a b => d.inOrder items a b := by
  have sorted := List.map_insertionSort (fun a b : Row × Nat => d.inOrder items a.1 b.1 = true)
    (fun a b => d.inOrder items a b = true) Prod.fst rows.zipIdx fun _ _ _ _ => Iff.rfl
  rwa [List.zipIdx_map_fst] at sorted

/-- The number of a row is its position in the order, from one. -/
theorem rowNumber_sorted (items : List (OrderItem Node)) (rows : List Row) {k : Nat}
    (within : k < (d.sorted items rows).length) : d.rowNumber items rows (d.sorted items rows)[k].2 = k + 1 := by
  have places : ((d.sorted items rows).map Prod.snd).Nodup := by
    rw [((d.sorted_perm items rows).map Prod.snd).nodup_iff, List.zipIdx_map_snd]
    exact List.nodup_range'
  refine congrArg (· + 1) ((List.findIdx_eq within).mpr ⟨by simp, fun j before => ?_⟩)
  have distinct := List.pairwise_iff_getElem.mp places j k (by simpa using before.trans within)
    (by simpa using within) before
  simpa using distinct

theorem key_total (n : Node) (a b : Row) :
    d.inOrder [{ expr := n }] a b = true ∨ d.inOrder [{ expr := n }] b a = true := by
  rw [d.inOrder_key, d.inOrder_key]
  exact d.total _ _

theorem key_trans (n : Node) (a b c : Row) (first : d.inOrder [{ expr := n }] a b = true)
    (second : d.inOrder [{ expr := n }] b c = true) : d.inOrder [{ expr := n }] a c = true := by
  rw [d.inOrder_key] at *
  exact d.trans _ _ _ first second

/-- Numbered rows, found in any order, come by their numbers. -/
theorem sort_numbered {n : Node} {rows numbered : List Row} (perm : rows.Perm numbered)
    (numbers : ∀ k (within : k < numbered.length), d.whole (numbered[k].value n) = some ((k : Int) + 1)) :
    (rows.insertionSort fun a b => d.inOrder [{ expr := n }] a b) = numbered := by
  have precedes {j k : Nat} (first : j < numbered.length) (second : k < numbered.length) :
      d.inOrder [{ expr := n }] numbered[j] numbered[k] = true ↔ j ≤ k := by
    rw [d.inOrder_key, d.ordered _ _ _ _ (numbers j first) (numbers k second), decide_eq_true_iff]
    omega
  refine insertionSort_perm (d.key_total n) (d.key_trans n) perm ?_ ?_
  · exact List.pairwise_iff_getElem.mpr fun j k first second before => (precedes first second).mpr (Nat.le_of_lt before)
  · intro a member b other before after
    obtain ⟨j, first, rfl⟩ := List.getElem_of_mem member
    obtain ⟨k, second, rfl⟩ := List.getElem_of_mem other
    obtain rfl := Nat.le_antisymm ((precedes first second).mp before) ((precedes second first).mp after)
    rfl

/-! ### One select -/

theorem rows_select (q : Select Node) : d.rows (.select q) = d.answer q (d.yielded q) := by
  have kept : (q.map fun c => (c, d.rows c)).map Prod.fst = q :=
    Shape.select.inj ((Shape.map_map _ _ (.select q)).trans (Shape.map_id _))
  have below : ((q.map fun c => (c, d.rows c)).source.elim [] Prod.snd) = q.source.elim [] d.rows := by
    cases source : q.source <;> simp [Select.map, source]
  unfold yielded
  rw [← below]
  -- `kept` is about the same recursion, which has to be spelled out for the rewrite to find it.
  unfold rows at kept ⊢
  rw [Node.para_mk]
  dsimp only [Shape.map]
  rw [kept]

theorem yielded_over {inner : Select Node} (source : q.source = some (.select inner)) (groups : q.groupBy = [])
    (plain : aggregates q = false) : d.yielded q =
      ((d.arrange (d.rows (.select inner))).map (d.row inner.label)).filter (passes q.filter) := by
  unfold yielded yieldedFrom
  rw [source]
  exact if_pos (by simp [groups, plain])

theorem project_named (named : q.projectsStar = false) (rows : List Row) (r : Row × Nat) :
    d.project q rows r = q.columns.map fun b => (b.name, d.cell rows r b.expr) := by
  obtain ⟨nonempty, wild⟩ := Bool.or_eq_false_iff.mp named
  rw [project, if_neg (by simp [nonempty])]
  have each : ∀ b ∈ q.columns, (if b.isWildcard then r.1.everything else [(b.name, d.cell rows r b.expr)]) =
      [(b.name, d.cell rows r b.expr)] := fun b column => if_neg (by simpa using List.any_eq_false.mp wild b column)
  rw [List.flatMap_congr each, List.map_eq_flatMap]

theorem answer_plain (distinct : q.distinct = false) (skip : q.skip = none) (take : q.take = none) (rows : List Row) :
    d.answer q rows = (d.sorted q.orderBy rows).map (d.project q rows) := by
  simp [answer, limited, distinct, skip, take]

theorem answer_skipped (distinct : q.distinct = false) (skips : q.skip = some skip) (take : q.take = none)
    (rows : List Row) :
    d.answer q rows = ((d.sorted q.orderBy rows).drop (d.count skip)).map (d.project q rows) := by
  simp [answer, limited, distinct, skips, take]

theorem answer_limited (distinct : q.distinct = false) (skips : q.skip = some skip) (takes : q.take = some take)
    (rows : List Row) : d.answer q rows =
      (((d.sorted q.orderBy rows).drop (d.count skip)).take (d.count take)).map (d.project q rows) := by
  simp [answer, limited, distinct, skips, takes]

end Database

end QueryTree.Paging
