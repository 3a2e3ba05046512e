import QueryTree.Amend.RowNumbers
import QueryTree.Proofs.Node.Labels
import QueryTree.Proofs.Pass.Rules

/-! What paging by row numbers is made of.

A page is built from the parts of the select by columns, comparisons, a sum and a window, in selects of their own. What
holds of all of these and of the parts holds of the page. So no select in an amended tree skips rows, and a tree in
which none did is as it was.
-/

set_option autoImplicit false

namespace QueryTree

namespace Amend

/-- Holds of whatever row numbers add to the parts of a select. -/
structure Numbering (P : Node → Prop) : Prop where
  column (c : Column) : P (.column c)
  literal (value : Value) : P (.literal value)
  operation {op : BinaryOp} {left right : Node} : op ≠ .eq → op ≠ .notEq → P left → P right →
    P (.ofBinary op left right)
  rowNumber : P (.call .rowNumber [] .int64)
  window {source : Node} {order : List (OrderItem Node)} : P source → (∀ o ∈ order, P o.expr) → P (.window source order)
  scalar {query : Node} {type : DataType} : P query → P (.subquery .scalar none query type)
  select {q : Select Node} : q.skip = none → (∀ c ∈ q.children, P c) → P (.select q)

/-! ### The upper bound -/

theorem upperBound_literals {v w : Value} {x y : Int64} (type other : DataType) (first : v.integer? = some x)
    (second : w.integer? = some y) :
    (fitsInt64 (x.toInt + y.toInt) = true → ∃ u z, upperBound (.constant v type) (.constant w other) = .literal u ∧
      u.integer? = some z ∧ z.toInt = x.toInt + y.toInt) ∧
    (fitsInt64 (x.toInt + y.toInt) = false → upperBound (.constant v type) (.constant w other) =
      .ofBinary .add (.constant v type) (.constant w other)) := by
  unfold upperBound
  simp only [Node.constant?, Option.bind_eq_bind, Option.bind_some, first, second]
  generalize x.toInt + y.toInt = total
  have wide (fits : fitsInt64 total = true) : (Int64.ofInt total).toInt = total := by
    simp only [fitsInt64, Bool.and_eq_true, decide_eq_true_eq] at fits
    exact Int64.toInt_ofInt_of_le (by omega) (by omega)
  -- Under a 32-bit limit the bound is a 32-bit literal where it fits.
  have narrow (fits : fitsInt32 total = true) : (Int32.ofInt total).toInt64.toInt = total := by
    simp only [fitsInt32, Bool.and_eq_true, decide_eq_true_eq] at fits
    rw [Int32.toInt_toInt64]
    exact Int32.toInt_ofInt_of_le (by omega) (by omega)
  refine ⟨fun fits => ?_, fun exceeds => by simp [exceeds]⟩
  simp only [fits, Bool.not_true, Bool.false_eq_true, if_false]
  split
  · split
    · rename_i small
      exact ⟨_, _, rfl, rfl, narrow small⟩
    · exact ⟨_, _, rfl, rfl, wide fits⟩
  · exact ⟨_, _, rfl, rfl, wide fits⟩

/-- The bound is the sum as an expression, or as a literal where it is known. -/
theorem upperBound_cases (skip take : Node) : upperBound skip take = .ofBinary .add skip take ∨
    ∃ v w x y u z, skip.constant? = some v ∧ take.constant? = some w ∧ v.integer? = some x ∧ w.integer? = some y ∧
      upperBound skip take = .literal u ∧ u.integer? = some z ∧ z.toInt = x.toInt + y.toInt := by
  cases first : skip.constant? with
  | none => exact .inl (by simp [upperBound, first])
  | some v =>
    cases second : take.constant? with
    | none => exact .inl (by simp [upperBound, second])
    | some w =>
      cases whole : v.integer? with
      | none => exact .inl (by simp [upperBound, first, whole])
      | some x =>
        cases other : w.integer? with
        | none => exact .inl (by simp [upperBound, first, second, other])
        | some y =>
          obtain ⟨type, rfl⟩ := Node.constant_some first
          obtain ⟨type', rfl⟩ := Node.constant_some second
          obtain ⟨literal, sum⟩ := upperBound_literals type type' whole other
          cases fits : fitsInt64 (x.toInt + y.toInt) with
          | true =>
            obtain ⟨u, z, same, exact⟩ := literal fits
            exact .inr ⟨v, w, x, y, u, z, rfl, rfl, whole, other, same, exact⟩
          | false => exact .inl (sum fits)

/-! ### The parts of a page -/

theorem columnsFrom_names (owner : String) (columns : List (Binding Node)) :
    (columnsFrom owner columns).map (·.name) = columns.map (·.name) := by
  simp [columnsFrom]

theorem noWildcard {q : Select Node} (noStar : q.projectsStar = false) : q.columns.any (·.isWildcard) = false :=
  (Bool.or_eq_false_iff.mp noStar).2

variable {P : Node → Prop} {s : Select Node} {skip : Node}

theorem paginate_label (s : Select Node) (skip : Node) : (paginate s skip).label = s.label := by
  unfold paginate
  split <;> rfl

namespace Numbering

theorem ofUpperBound (numbering : Numbering P) {skip take : Node} (first : P skip) (second : P take) :
    P (upperBound skip take) := by
  rcases upperBound_cases skip take with sum | ⟨_, _, _, _, u, _, _, _, _, _, literal, _⟩
  · exact sum ▸ numbering.operation (by simp) (by simp) first second
  · exact literal ▸ numbering.literal u

theorem ofColumns (numbering : Numbering P) (owner : String) (columns : List (Binding Node)) :
    ∀ b ∈ columnsFrom owner columns, P b.expr := by
  unfold columnsFrom
  exact List.forall_mem_map.mpr fun b _ => numbering.column _

theorem ofWindowOrder (numbering : Numbering P) (parts : ∀ c ∈ s.children, P c) : ∀ o ∈ windowOrder s, P o.expr := by
  obtain ⟨columns, -, -, -, order, -, -⟩ := Select.forall_children.mp parts
  have null : P (.null .unknown) := numbering.literal .null
  have any : P anyOrder := numbering.scalar (numbering.select rfl (Select.forall_children.mpr (by simpa using null)))
  unfold windowOrder
  dsimp only
  split
  · exact order
  · split
    · exact List.forall_mem_map.mpr fun b member => columns b (List.mem_filter.mp member).1
    · exact List.forall_mem_singleton.mpr any

theorem ofUnpaged (numbering : Numbering P) (parts : ∀ c ∈ s.children, P c) (label : String)
    {columns : List (Binding Node)} (each : ∀ b ∈ columns, P b.expr) : P (.select (unpaged s label columns)) := by
  obtain ⟨-, source, filter, groups, -, -, -⟩ := Select.forall_children.mp parts
  exact numbering.select rfl (Select.forall_children.mpr ⟨each, source, filter, groups, by simp [unpaged],
    by simp [unpaged], by simp [unpaged]⟩)

theorem ofNumbered (numbering : Numbering P) (parts : ∀ c ∈ s.children, P c) (label : String) :
    P (.select (numbered s label)) := by
  obtain ⟨columns, source, filter, groups, -, -, -⟩ := Select.forall_children.mp parts
  have number := numbering.window numbering.rowNumber (numbering.ofWindowOrder parts)
  refine numbering.select rfl (Select.forall_children.mpr ⟨?_, source, filter, groups, by simp [numbered, unpaged],
    by simp [numbered, unpaged], by simp [numbered, unpaged]⟩)
  refine List.forall_mem_append.mpr ⟨?_, List.forall_mem_singleton.mpr number⟩
  split
  · exact List.forall_mem_singleton.mpr (numbering.column _)
  · exact columns

theorem ofOverDistinct (numbering : Numbering P) (parts : ∀ c ∈ s.children, P c) :
    ∀ c ∈ (overDistinct s).children, P c := by
  obtain ⟨columns, -, -, -, -, skip, take⟩ := Select.forall_children.mp parts
  refine Select.forall_children.mpr ⟨?_, ?_, by simp [overDistinct], by simp [overDistinct], ?_, skip, take⟩
  · unfold overDistinct
    dsimp only
    split
    · exact fun _ member => absurd member List.not_mem_nil
    · exact numbering.ofColumns _ _
  · rintro source ⟨⟩
    exact numbering.ofUnpaged parts _ columns
  · intro o member
    obtain ⟨item, -, named⟩ := List.mem_filterMap.mp member
    obtain ⟨name, -, rfl⟩ := Option.map_eq_some_iff.mp named
    exact numbering.column _

theorem ofWindow (numbering : Numbering P) (parts : ∀ c ∈ s.children, P c) (given : P skip) :
    P (.select (Amend.window s skip)) := by
  obtain ⟨columns, -, -, -, -, -, take⟩ := Select.forall_children.mp parts
  have number := numbering.column { label := s.label ++ "_inner", name := rowNumberName, type := .int64 }
  have lower : P (.ofBinary .gt _ skip) := numbering.operation (by simp) (by simp) number given
  refine numbering.select rfl (Select.forall_children.mpr ⟨?_, ?_, ?_, by simp [Amend.window], ?_,
    by simp [Amend.window], by simp [Amend.window]⟩)
  · unfold Amend.window
    dsimp only
    split
    -- A select of all columns has an empty list, and its page has one as well.
    · exact fun _ member => absurd member List.not_mem_nil
    · exact numbering.ofColumns _ _
  · rintro source ⟨⟩
    exact numbering.ofNumbered parts _
  · rintro filter ⟨⟩
    split
    · rename_i bound limited
      have upper : P (.ofBinary .ltEq _ _) :=
        numbering.operation (by simp) (by simp) number (numbering.ofUpperBound given (take bound limited))
      exact numbering.operation (by simp) (by simp) lower upper
    · exact lower
  · exact List.forall_mem_singleton.mpr number

theorem ofPaginate (numbering : Numbering P) (parts : ∀ c ∈ s.children, P c) (given : P skip) :
    P (.select (paginate s skip)) := by
  unfold paginate
  split
  · exact numbering.ofWindow (numbering.ofOverDistinct parts) given
  · exact numbering.ofWindow parts given

end Numbering

/-! ### Selects that skip rows -/

end Amend

namespace Node

/-- No select in the tree skips rows. -/
def SkipsNone (n : Node) : Prop := ∀ q ∈ n.queries, q.skip = none

theorem skipsNone_mk {s : Shape Node} :
    (Node.mk s).SkipsNone ↔ (∀ q, s = .select q → q.skip = none) ∧ ∀ c ∈ s.children, c.SkipsNone := by
  have own (q : Select Node) : q ∈ (select? (.mk s)).toList ↔ s = .select q := by
    cases s <;> simp [select?, eq_comm]
  simp only [SkipsNone, queries_mk, List.mem_append, own, List.mem_flatMap]
  constructor
  · exact fun each => ⟨fun q here => each q (.inl here), fun c child q below => each q (.inr ⟨c, child, below⟩)⟩
  · rintro ⟨here, below⟩ q (same | ⟨c, child, member⟩)
    · exact here q same
    · exact below c child q member

theorem skipsNone_select {q : Select Node} :
    (Node.select q).SkipsNone ↔ q.skip = none ∧ ∀ c ∈ q.children, c.SkipsNone := by
  rw [skipsNone_mk]
  exact and_congr_left fun _ => ⟨fun here => here q rfl, by rintro here _ ⟨⟩; exact here⟩

theorem skips_or_not (s : Shape Node) :
    (∃ q skip, s = .select q ∧ q.skip = some skip) ∨ ∀ q, s = .select q → q.skip = none := by
  -- Not by kinds: a select that skips nothing is kept like any other layer.
  by_cases paged : ∃ q skip, s = .select q ∧ q.skip = some skip
  · exact .inl paged
  · refine .inr fun q same => Option.eq_none_iff_forall_ne_some.mpr ?_
    intro skip skips
    exact paged ⟨q, skip, same, skips⟩

theorem skipsNone_other {s : Shape Node} (notSelect : s.kind ≠ .select) :
    (Node.mk s).SkipsNone ↔ ∀ c ∈ s.children, c.SkipsNone := by
  rw [skipsNone_mk]
  exact and_iff_right (by rintro q rfl; exact absurd rfl notSelect)

end Node

namespace Amend

theorem skipsNone_numbering : Numbering Node.SkipsNone where
  column c := (Node.skipsNone_other (by simp [Shape.kind])).mpr fun _ member => absurd member List.not_mem_nil
  literal v := (Node.skipsNone_other (by simp [Shape.kind])).mpr fun _ member => absurd member List.not_mem_nil
  operation _ _ first second :=
    (Node.skipsNone_other (by simp [Shape.kind])).mpr (by simpa [Shape.children] using ⟨first, second⟩)
  rowNumber := (Node.skipsNone_other (by simp [Shape.kind])).mpr fun _ member => absurd member List.not_mem_nil
  window source order :=
    (Node.skipsNone_other (by simp [Shape.kind])).mpr (List.forall_mem_cons.mpr ⟨source, List.forall_mem_map.mpr order⟩)
  scalar query := (Node.skipsNone_other (by simp [Shape.kind])).mpr (by simpa [Shape.children] using query)
  select skip parts := Node.skipsNone_select.mpr ⟨skip, parts⟩

/-- A select that skips rows is paged by what its parts have become. -/
theorem rowNumbers_paged {q : Select Node} {skip : Node} (skips : q.skip = some skip) :
    rowNumbers.amend (.select q) = .select (paginate (q.map rowNumbers.amend) (rowNumbers.amend skip)) := by
  have paged : (q.map rowNumbers.amend).skip = some (rowNumbers.amend skip) := by simp [Select.map, skips]
  simp only [rowNumbers] at paged ⊢
  rw [Node.mapUp_mk]
  dsimp only [Shape.map]
  split
  · rename_i skip' found
    rw [Option.some.inj (found.symm.trans paged)]
  · rename_i none
    cases none.symm.trans paged

theorem rowNumbers_kept {s : Shape Node} (skips : ∀ q, s = .select q → q.skip = none) :
    rowNumbers.amend (.mk s) = .mk (s.map rowNumbers.amend) := by
  simp only [rowNumbers]
  rw [Node.mapUp_mk]
  cases s with
  | select q =>
    have kept (f : Node → Node) : (q.map f).skip = none := by simp [Select.map, skips q rfl]
    dsimp only [Shape.map]
    split
    · rename_i paged
      cases (kept _).symm.trans paged
    · rfl
  | _ => rfl

theorem rowNumbers_skipsNone (n : Node) : (rowNumbers.amend n).SkipsNone := by
  induction n using Node.inductNode with
  | step s ih =>
    have below : ∀ c ∈ (s.map rowNumbers.amend).children, c.SkipsNone := by
      rw [Shape.children_map]
      exact List.forall_mem_map.mpr ih
    rcases Node.skips_or_not s with ⟨q, skip, rfl, skips⟩ | kept
    · rw [rowNumbers_paged skips]
      exact skipsNone_numbering.ofPaginate below (ih skip (by simp [Shape.children, Select.children, skips]))
    · rw [rowNumbers_kept kept, Node.skipsNone_mk]
      refine ⟨fun q same => ?_, below⟩
      cases s with
      | select p =>
        cases same
        simp [Select.map, kept p rfl]
      | _ => cases same

theorem rowNumbers_still {n : Node} (none : n.SkipsNone) : rowNumbers.amend n = n := by
  induction n using Node.inductNode with
  | step s ih =>
    obtain ⟨here, below⟩ := Node.skipsNone_mk.mp none
    rw [rowNumbers_kept here, Shape.map_congr fun c child => ih c child (below c child), Shape.map_id]

theorem rowNumbers_map {q : Select Node} (none : ∀ c ∈ q.children, c.SkipsNone) : q.map rowNumbers.amend = q := by
  have still := Shape.map_congr (s := .select q) fun c child => rowNumbers_still (none c child)
  exact Shape.select.inj (still.trans (Shape.map_id _))

end Amend

end QueryTree
