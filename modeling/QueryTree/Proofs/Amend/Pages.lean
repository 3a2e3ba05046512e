import QueryTree.Proofs.Amend.RowNumbers
import QueryTree.Proofs.Node.Pairing
import QueryTree.Proofs.Pass.Wildcards

/-! What a page keeps of the select it was made from.

A page exposes the columns of its select. One that exposes its source lists none, so its page exposes all that the
numbered rows have, and among that their numbers. Distinct rows are numbered in the order of the select as far as it is
said of columns that the select has; a reference of another type than the column is taken for no column of the select.
-/

set_option autoImplicit false

namespace QueryTree

namespace Node

theorem resultColumns_parts {keep : String → Bool} {f : Node → Node} {s : Shape Node}
    (parts : ∀ c ∈ s.children, (f c).resultColumns.filter keep = c.resultColumns.filter keep) :
    (Node.mk (s.map f)).resultColumns.filter keep = (Node.mk s).resultColumns.filter keep := by
  cases s with
  | select q =>
    have names := Select.names_map q f
    have source : (((q.map f).source.map resultColumns).getD []).filter keep =
        ((q.source.map resultColumns).getD []).filter keep := by
      cases reads : q.source with
      | none => simp [Select.map, reads]
      | some source => simpa [Select.map, reads] using parts source (Select.source_child reads)
    show (Node.select (q.map f)).resultColumns.filter keep = _
    rw [Select.resultColumns_select, Select.resultColumns_select, Select.projectsStar_names names, names,
      Select.explicit_map]
    split
    · rw [List.filter_append, List.filter_append, source]
    · rfl
  | join kind left right condition =>
    have joined (a b : Node) (c : Option Node) :
        (Node.join kind a b c).resultColumns = a.resultColumns ++ b.resultColumns := fold_mk _ (.join kind a b c)
    show (Node.join kind (f left) (f right) (condition.map f)).resultColumns.filter keep = _
    rw [joined, joined, List.filter_append, List.filter_append, parts left (by simp [Shape.children]),
      parts right (by simp [Shape.children])]
  | _ => rfl

end Node

namespace Amend

variable {s : Select Node} {skip : Node}

theorem overDistinct_star (star : s.projectsStar = true) : (overDistinct s).columns = [] := if_pos star

theorem overDistinct_named (named : s.projectsStar = false) :
    (overDistinct s).columns = columnsFrom (s.label ++ "_distinct") s.columns := if_neg (by simp [named])

theorem overDistinct_projectsStar (s : Select Node) : (overDistinct s).projectsStar = s.projectsStar := by
  cases star : s.projectsStar with
  | true => simp [Select.projectsStar, overDistinct_star star]
  | false => rw [Select.projectsStar_names (q := s) (by rw [overDistinct_named star, columnsFrom_names]), star]

theorem overDistinct_resultColumns (s : Select Node) :
    (Node.select (overDistinct s)).resultColumns = (Node.select s).resultColumns := by
  cases star : s.projectsStar with
  | true =>
    have same : (Node.select (unpaged s (s.label ++ "_distinct") s.columns)).resultColumns =
        (Node.select s).resultColumns := by
      rw [Select.resultColumns_select, Select.resultColumns_select]
      rfl
    rw [Select.resultColumns_star ((overDistinct_projectsStar s).trans star), overDistinct_star star, ← same]
    exact List.append_nil _
  | false =>
    rw [Select.resultColumns_named ((overDistinct_projectsStar s).trans star), Select.resultColumns_named star,
      overDistinct_named star, columnsFrom_names]

theorem window_star (star : s.projectsStar = true) (skip : Node) : (window s skip).columns = [] := by
  unfold window
  dsimp only
  split
  · rfl
  · rename_i none
    have empty : s.columns = [] := by simpa [Select.projectsStar, none] using star
    rw [empty]
    rfl

theorem window_named (named : s.projectsStar = false) (skip : Node) :
    (window s skip).columns = columnsFrom (s.label ++ "_inner") s.columns :=
  if_neg (by simp [noWildcard named])

theorem numbered_resultColumns (star : s.projectsStar = true) (label : String) :
    (Node.select (numbered s label)).resultColumns = (Node.select s).resultColumns ++ [rowNumberName] := by
  have number : rowNumberName ≠ Node.wildcard := by decide
  -- Without columns the numbered rows come to have a wildcard, which has no name of its own either.
  have columns : (if s.columns.isEmpty then [Binding.everything] else s.columns).any (·.isWildcard) = true ∧
      ((if s.columns.isEmpty then [Binding.everything] else s.columns).filter fun b => !b.isWildcard) =
        s.columns.filter fun b => !b.isWildcard := by
    cases empty : s.columns.isEmpty with
    | true => simp [List.isEmpty_iff.mp empty, Binding.isWildcard, Binding.everything]
    | false => exact ⟨by simpa [Select.projectsStar, empty] using star, rfl⟩
  have again : (numbered s label).projectsStar = true := by
    simp only [Select.projectsStar, numbered, unpaged, List.any_append, columns.1, Bool.true_or, Bool.or_true]
  rw [Select.resultColumns_star again, Select.resultColumns_star star, List.append_assoc]
  simp only [numbered, unpaged, List.filter_append, columns.2, List.map_append]
  simp [Binding.isWildcard, number]

theorem window_resultColumns (s : Select Node) (skip : Node) : (Node.select (window s skip)).resultColumns =
    (Node.select s).resultColumns ++ if s.projectsStar then [rowNumberName] else [] := by
  cases star : s.projectsStar with
  | true =>
    have columns := window_star star skip
    rw [Select.resultColumns_star (by simp [Select.projectsStar, columns]), columns]
    exact (List.append_nil _).trans (numbered_resultColumns star _)
  | false =>
    have columns := window_named star skip
    have names : (window s skip).columns.map (·.name) = s.columns.map (·.name) := by rw [columns, columnsFrom_names]
    rw [Select.resultColumns_named ((Select.projectsStar_names names).trans star), names,
      Select.resultColumns_named star]
    simp

/-- A page exposes what its select does and, where that exposes its source, the numbers of the rows. -/
theorem paginate_resultColumns (s : Select Node) (skip : Node) : (Node.select (paginate s skip)).resultColumns =
    (Node.select s).resultColumns ++ if s.projectsStar then [rowNumberName] else [] := by
  unfold paginate
  rw [window_resultColumns]
  split
  · rw [overDistinct_resultColumns, overDistinct_projectsStar]
  · rfl

variable {n : Node} {keep : String → Bool}

/-- Row numbers aside, a query exposes what it did, and where no select that exposes its source skips rows, it exposes no
row numbers either. -/
theorem rowNumbers_resultColumns
    (passes : keep rowNumberName = false ∨ ∀ q ∈ n.queries, q.projectsStar = true → q.skip = none) :
    (rowNumbers.amend n).resultColumns.filter keep = n.resultColumns.filter keep := by
  induction n using Node.inductNode with
  | step s ih =>
    have parts :
        (Node.mk (s.map rowNumbers.amend)).resultColumns.filter keep = (Node.mk s).resultColumns.filter keep := by
      apply Node.resultColumns_parts
      intro c child
      apply ih c child
      apply passes.imp_right
      intro each q inside
      apply each q
      rw [Node.queries_mk]
      exact List.mem_append_right _ (List.mem_flatMap.mpr ⟨c, child, inside⟩)
    rcases Node.skips_or_not s with ⟨q, skip, rfl, skips⟩ | kept
    · rw [rowNumbers_paged skips, paginate_resultColumns, List.filter_append]
      -- All that a page adds are row numbers, which are left out or were not to be added.
      have numbers : (if (q.map rowNumbers.amend).projectsStar then [rowNumberName] else []).filter keep = [] := by
        rw [Select.projectsStar_names (Select.names_map q _)]
        cases star : q.projectsStar with
        | false => rfl
        | true =>
          have dropped : keep rowNumberName = false := by
            apply passes.resolve_right
            intro each
            have none := each q (Node.mem_queries.mpr (Node.self_mem_subtrees _)) star
            rw [skips] at none
            cases none
          simp [dropped]
      rw [numbers, List.append_nil]
      exact parts
    · rw [rowNumbers_kept kept]
      exact parts

/-- The page of a select without columns has the numbers of its rows among its columns. -/
theorem star_exposes_number :
    let inner : Select Node :=
      { label := "s1", columns := [⟨"a", .column ⟨"t0", "a", .int32⟩⟩], source := some (.table "T" "t0" .void) }
    let n : Node := .select { label := "s0", source := some (.select inner), skip := some (.literal (.int32 1)) }
    n.resultColumns = ["a"] ∧ (rowNumbers.amend n).resultColumns = ["a", "__rownum"] := by
  decide +kernel

/-! ### Distinct selects -/

/-- The select projects the column that the item refers to, whatever types the two references have. -/
def projects (s : Select Node) (o : OrderItem Node) : Bool :=
  o.expr.column?.any fun c => s.projectsStar || s.columns.any fun b => b.expr.column?.any c.sameAs

/-- An item of the order, said of the source that holds the distinct rows. -/
structure Restates (s : Select Node) (before after : OrderItem Node) : Prop where
  direction : after.direction = before.direction
  expr : ∃ name, after.expr = .column ⟨s.label ++ "_distinct", name, before.expr.dataType⟩ ∧
    ((∃ b ∈ s.columns, b.name = name ∧ b.expr = before.expr) ∨
      s.projectsStar = true ∧ ∃ c, before.expr = .column c ∧ c.name = name)

def restated? (s : Select Node) (o : OrderItem Node) : Option (OrderItem Node) :=
  (orderedName? s o.expr).map fun name =>
    { expr := .column ⟨s.label ++ "_distinct", name, o.expr.dataType⟩, direction := o.direction }

theorem overDistinct_orderBy (s : Select Node) : (overDistinct s).orderBy = s.orderBy.filterMap (restated? s) := rfl

/-- A reference is restated when a column is declared by it, its type included, or a wildcard exposes what it names. -/
theorem restated_of_declared {o : OrderItem Node} {c : Column} (reference : o.expr = .column c)
    (declared : s.projectsStar = true ∨ ∃ b ∈ s.columns, b.expr = .column c) :
    ∃ after, restated? s o = some after ∧ Restates s o after := by
  unfold restated? orderedName?
  cases found : s.columns.find? fun b => b.expr == o.expr with
  | some b =>
    have alike : (b.expr == o.expr) = true := by simpa using List.find?_some found
    have same : b.expr = o.expr := Node.eq_of_alike alike
    exact ⟨_, rfl, rfl, b.name, rfl, .inl ⟨b, List.mem_of_find?_eq_some found, rfl, same⟩⟩
  | none =>
    -- No column is declared by the reference, so a wildcard has to expose it.
    have star : s.projectsStar = true := by
      rcases declared with star | ⟨b, column, same⟩
      · exact star
      · have other := List.find?_eq_none.mp found b column
        rw [reference, same] at other
        exact absurd (by show Node.alike {} _ _ = true; rw [Node.alike]; exact beq_self_eq_true c) other
    dsimp only
    rw [if_pos star, reference]
    exact ⟨_, rfl, rfl, c.name, by rw [reference], .inr ⟨star, c, reference, rfl⟩⟩

/-- The types of references in the order are those of the columns that are declared by them. -/
def OrderAgrees (s : Select Node) : Prop :=
  ∀ o ∈ s.orderBy, ∀ b ∈ s.columns, ∀ c d, o.expr = .column c → b.expr = .column d → c.sameAs d = true → c = d

theorem restated_of_projects (agrees : OrderAgrees s) {o : OrderItem Node} (item : o ∈ s.orderBy)
    (projected : projects s o = true) : ∃ after, restated? s o = some after ∧ Restates s o after := by
  obtain ⟨c, reference, projected⟩ := (Option.any_eq_true _ _).mp projected
  have expr := Node.column_some reference
  apply restated_of_declared expr
  rw [Bool.or_eq_true] at projected
  apply projected.imp_right
  intro declared
  obtain ⟨b, column, declared⟩ := List.any_eq_true.mp declared
  obtain ⟨d, same, alike⟩ := (Option.any_eq_true _ _).mp declared
  have declares := Node.column_some same
  rw [agrees o item b column c d expr declares alike]
  exact ⟨b, column, declares⟩

theorem restated_each (agrees : OrderAgrees s) {items : List (OrderItem Node)}
    (each : ∀ o ∈ items, o ∈ s.orderBy ∧ projects s o = true) :
    List.Forall₂ (Restates s) items (items.filterMap (restated? s)) := by
  induction items with
  | nil => exact .nil
  | cons o rest ih =>
    obtain ⟨item, projected⟩ := each o List.mem_cons_self
    obtain ⟨after, found, restates⟩ := restated_of_projects agrees item projected
    rw [List.filterMap_cons_some found]
    exact .cons restates (ih fun o member => each o (List.mem_cons_of_mem _ member))

theorem windowOrder_of_order {items : List (OrderItem Node)} (among : items.Sublist s.orderBy) :
    items.Sublist (windowOrder s) := by
  unfold windowOrder
  dsimp only
  split
  · exact among
  · rename_i none
    have empty : s.orderBy = [] := by simpa using none
    rw [empty] at among
    rw [List.sublist_nil.mp among]
    exact List.nil_sublist _

/-- Distinct rows, numbered, and of these a page: the rows are made distinct below all else, of the columns there were, and
numbered in the order there was. -/
structure DistinctPage (s : Select Node) (page numbered rows : Select Node) : Prop where
  reads : page.source = some (.select numbered)
  numbers : numbered.source = some (.select rows)
  distinct : page.distinct = false ∧ numbered.distinct = false ∧ rows.distinct = true
  columns : rows.columns = s.columns
  label : rows.label = s.label ++ "_distinct"
  ordered : ∃ columns order,
    numbered.columns = columns ++ [⟨rowNumberName, .window (.call .rowNumber [] .int64) order⟩] ∧
    (OrderAgrees s → ∃ items, items.Sublist order ∧ List.Forall₂ (Restates s) (s.orderBy.filter (projects s)) items)

theorem paginate_distinct (distinct : s.distinct = true) (skip : Node) :
    ∃ numbered rows, DistinctPage s (paginate s skip) numbered rows := by
  have paged : paginate s skip = window (overDistinct s) skip := by rw [paginate, if_pos distinct]
  rw [paged]
  refine ⟨numbered (overDistinct s) (s.label ++ "_inner"), unpaged s (s.label ++ "_distinct") s.columns, ?_⟩
  constructor
  case reads => rfl
  case numbers => rfl
  case distinct => exact ⟨rfl, rfl, distinct⟩
  case columns => rfl
  case label => rfl
  case ordered =>
    refine ⟨_, windowOrder (overDistinct s), rfl, fun agrees => ?_⟩
    refine ⟨(s.orderBy.filter (projects s)).filterMap (restated? s), windowOrder_of_order ?_, ?_⟩
    · rw [overDistinct_orderBy]
      exact List.filter_sublist.filterMap _
    · exact restated_each agrees fun o member => List.mem_filter.mp member

/-- An item whose reference has another type than the column is dropped, and the rows are numbered in another order. -/
theorem order_lost_by_type :
    let s : Select Node :=
      { label := "s0", columns := [⟨"name", .column ⟨"t0", "name", .text⟩⟩], source := some (.table "users" "t0" .void)
        orderBy := [⟨.column ⟨"t0", "name", .void⟩, .descending⟩], distinct := true }
    let order (items : List (OrderItem Node)) := items.map fun o => (o.expr.column?, o.direction)
    s.orderBy.all (projects s) = true ∧ order (overDistinct s).orderBy = [] ∧
      order (windowOrder (overDistinct s)) = [(some ⟨"s0_distinct", "name", .text⟩, .ascending)] := by
  decide +kernel

end Amend

end QueryTree
