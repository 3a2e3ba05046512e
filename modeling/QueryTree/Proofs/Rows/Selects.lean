import QueryTree.Proofs.Pass.Flattening
import QueryTree.Proofs.Rows.Expressions

/-! The rows of a select, and of two selects in one.

Filters and a stable order can be exchanged, and what is read from a row can be read before it is put in order. So a
select over another one that filters, orders and projects has the rows of a single select that reads the columns of
the inner one as what they stand for.
-/

set_option autoImplicit false

namespace QueryTree

/-! ### Stable order -/

section Lists

variable {α : Type} {r : α → α → Prop} [DecidableRel r]

theorem orderedInsert_first {a : α} {l : List α} (first : ∀ b ∈ l, r a b) : l.orderedInsert r a = a :: l := by
  cases l with
  | nil => rfl
  | cons b rest => exact List.orderedInsert_cons_of_le r rest (first b List.mem_cons_self)

theorem filter_orderedInsert (trans : ∀ a b c, r a b → r b c → r a c) (p : α → Bool) {a : α} {l : List α}
    (sorted : l.Pairwise r) :
    (l.orderedInsert r a).filter p = if p a then (l.filter p).orderedInsert r a else l.filter p := by
  induction l with
  | nil => by_cases kept : p a <;> simp [kept]
  | cons b rest ih =>
    obtain ⟨here, later⟩ := List.pairwise_cons.mp sorted
    by_cases first : r a b
    -- `a` comes before everything in the list, and so before what is kept of it.
    · have before : ∀ c ∈ b :: rest, r a c := by
        rintro c (_ | ⟨_, member⟩)
        · exact first
        · exact trans a b c first (here c member)
      rw [orderedInsert_first before, List.filter_cons]
      split
      · rw [orderedInsert_first fun c member => before c (List.mem_filter.mp member).1]
      · rfl
    · rw [List.orderedInsert_of_not_le r rest first, List.filter_cons, ih later, List.filter_cons]
      by_cases keptHead : p b = true <;> by_cases kept : p a = true <;> simp [keptHead, kept, first]

/-- Rows that are left out make no difference to the order of the others. -/
theorem filter_insertionSort (total : ∀ a b, r a b ∨ r b a) (trans : ∀ a b c, r a b → r b c → r a c) (p : α → Bool)
    (l : List α) : (l.insertionSort r).filter p = (l.filter p).insertionSort r := by
  have : Std.Total r := ⟨total⟩
  have : IsTrans α r := ⟨trans⟩
  induction l with
  | nil => rfl
  | cons a rest ih =>
    rw [List.insertionSort_cons, filter_orderedInsert trans p (List.pairwise_insertionSort r rest), ih, List.filter_cons]
    split <;> rfl

end Lists

namespace Engine

variable (e : Engine) {reading : Reading}

theorem byKey_total (reading : Reading) (o : OrderItem Node) (a b : Record) :
    e.byKey reading o a b = true ∨ e.byKey reading o b a = true := by
  unfold byKey
  cases o.direction <;> exact e.total _ _

theorem byKey_trans (o : OrderItem Node) {a b c : Record} (first : e.byKey reading o a b = true)
    (second : e.byKey reading o b c = true) : e.byKey reading o a c = true := by
  unfold byKey at *
  cases direction : o.direction with
  | ascending => exact e.trans _ _ _ (by simpa [direction] using first) (by simpa [direction] using second)
  | descending => exact e.trans _ _ _ (by simpa [direction] using second) (by simpa [direction] using first)

theorem inOrder_cons {o : OrderItem Node} {rest : List (OrderItem Node)} {a b : Record} :
    e.inOrder reading (o :: rest) a b = true ↔
      e.byKey reading o a b = true ∧ (e.byKey reading o b a = true → e.inOrder reading rest a b = true) := by
  rw [inOrder, Bool.and_eq_true, Bool.or_eq_true]
  cases e.byKey reading o b a <;> simp

theorem inOrder_total (items : List (OrderItem Node)) (a b : Record) :
    e.inOrder reading items a b = true ∨ e.inOrder reading items b a = true := by
  induction items with
  | nil => exact .inl rfl
  | cons o rest ih =>
    have total := e.byKey_total reading o a b
    rw [inOrder_cons, inOrder_cons]
    tauto

theorem inOrder_trans (items : List (OrderItem Node)) (a b c : Record) (first : e.inOrder reading items a b = true)
    (second : e.inOrder reading items b c = true) : e.inOrder reading items a c = true := by
  induction items with
  | nil => rfl
  | cons o rest ih =>
    rw [inOrder_cons] at first second ⊢
    refine ⟨e.byKey_trans o first.1 second.1, fun tie => ih (first.2 ?_) (second.2 ?_)⟩
    · exact e.byKey_trans o second.1 tie
    · exact e.byKey_trans o tie first.1

theorem sort_perm (items : List (OrderItem Node)) (rows : List Record) : (e.sort reading items rows).Perm rows :=
  List.perm_insertionSort _ rows

theorem sort_nil (rows : List Record) : e.sort reading [] rows = rows :=
  List.Pairwise.insertionSort_eq (List.pairwise_of_forall fun _ _ => rfl)

theorem sort_filter (items : List (OrderItem Node)) (p : Record → Bool) (rows : List Record) :
    (e.sort reading items rows).filter p = e.sort reading items (rows.filter p) :=
  filter_insertionSort (e.inOrder_total items) (e.inOrder_trans items) p rows

theorem sort_map {other : Reading} {items : List (OrderItem Node)} {f : Record → Record}
    (same : ∀ a b, e.inOrder reading items a b = e.inOrder other items (f a) (f b)) (rows : List Record) :
    (e.sort reading items rows).map f = e.sort other items (rows.map f) :=
  List.map_insertionSort _ _ f rows fun a _ b _ => by rw [same a b]

/-! ### One select -/

/-- The order in which a source has its rows shows at most in the order of a select over it. -/
theorem answer_perm (reading : Reading) (q : Select Node) {source other : Relation} (names : source.names = other.names)
    (rows : source.rows.Perm other.rows) : (e.answer reading q source).names = (e.answer reading q other).names ∧
      (e.answer reading q source).rows.Perm (e.answer reading q other).rows := by
  refine ⟨congrArg q.exposed names, List.Perm.map _ ?_⟩
  exact (e.sort_perm _ _).trans ((rows.filter _).trans (e.sort_perm _ _).symm)

theorem answer_rows (q : Select Node) {source other : Relation} (rows : source.rows = other.rows) :
    (e.answer reading q source).rows = (e.answer reading q other).rows := by
  unfold answer
  rw [rows]

end Engine

namespace Select

variable {scope : Column → Bool} {q : Select Node}

/-- What it takes for a select to have rows over a source. -/
structure Simple (scope : Column → Bool) (q : Select Node) : Prop where
  groupBy : q.groupBy = []
  distinct : q.distinct = false
  skip : q.skip = none
  take : q.take = none
  forUpdate : q.forUpdate = false
  columns : q.isWildcard = true ∨ q.projectsStar = false ∧ ∀ b ∈ q.columns, b.expr.isBound scope = true
  filter : ∀ f ∈ q.filter, f.isBound scope = true
  orderBy : ∀ o ∈ q.orderBy, o.expr.isBound scope = true

theorem isSimple_iff : q.isSimple scope = true ↔ q.Simple scope := by
  have all (o : Option Node) : o.all (Node.isBound scope) = true ↔ ∀ f ∈ o, f.isBound scope = true := by
    cases o <;> simp
  simp only [isSimple, Bool.and_eq_true, Bool.or_eq_true, all, List.all_eq_true, List.isEmpty_iff, Bool.not_eq_true',
    Option.isNone_iff_eq_none]
  constructor
  · rintro ⟨⟨⟨⟨⟨⟨⟨groupBy, distinct⟩, skip⟩, take⟩, forUpdate⟩, columns⟩, filter⟩, orderBy⟩
    exact ⟨groupBy, distinct, skip, take, forUpdate, columns, filter, orderBy⟩
  · rintro ⟨groupBy, distinct, skip, take, forUpdate, columns, filter, orderBy⟩
    exact ⟨⟨⟨⟨⟨⟨⟨groupBy, distinct⟩, skip⟩, take⟩, forUpdate⟩, columns⟩, filter⟩, orderBy⟩

theorem Simple.mono {wider : Column → Bool} (within : ∀ c, scope c = true → wider c = true) (simple : q.Simple scope) :
    q.Simple wider :=
  { simple with
    columns := simple.columns.imp id fun ⟨named, each⟩ => ⟨named, fun b column => Node.isBound_mono within (each b column)⟩
    filter := fun f member => Node.isBound_mono within (simple.filter f member)
    orderBy := fun o member => Node.isBound_mono within (simple.orderBy o member) }

theorem Simple.withSource (simple : q.Simple scope) (source : Option Node) :
    ({ q with source } : Select Node).Simple scope :=
  ⟨simple.groupBy, simple.distinct, simple.skip, simple.take, simple.forUpdate, simple.columns, simple.filter,
    simple.orderBy⟩

end Select

namespace Engine

variable (e : Engine) {reading other : Reading} {scope : Column → Bool} {q : Select Node}

/-- Rows of two kinds in which the columns in scope read the same. -/
def ReadsAs (scope : Column → Bool) (reading other : Reading) (f : Record → Record) : Prop :=
  ∀ c, scope c = true → ∀ r, reading r c = other (f r) c

variable {f : Record → Record}

theorem value_agree (agree : ReadsAs scope reading other f) {n : Node} (bound : n.isBound scope = true) (r : Record) :
    e.value (reading r) n = e.value (other (f r)) n :=
  Node.evaluate_congr (fun c inScope => agree c inScope r) bound

theorem passes_agree (agree : ReadsAs scope reading other f) (simple : q.Simple scope) (r : Record) :
    e.passes reading q.filter r = e.passes other q.filter (f r) := by
  unfold passes
  cases filter : q.filter with
  | none => rfl
  | some n => simp only [Option.all_some, e.value_agree agree (simple.filter n filter)]

theorem inOrder_agree (agree : ReadsAs scope reading other f) (simple : q.Simple scope) (a b : Record) :
    e.inOrder reading q.orderBy a b = e.inOrder other q.orderBy (f a) (f b) := by
  have bound := simple.orderBy
  generalize q.orderBy = items at bound
  induction items with
  | nil => rfl
  | cons o rest ih =>
    have key := e.value_agree agree (bound o List.mem_cons_self)
    simp only [inOrder, byKey, key, ih fun p member => bound p (List.mem_cons_of_mem _ member)]

theorem project_wildcard (wild : q.isWildcard = true) : e.project reading q = id := by
  funext r
  exact if_pos wild

theorem project_agree (agree : ReadsAs scope reading other f) (simple : q.Simple scope) (named : q.isWildcard = false)
    (r : Record) : e.project reading q r = e.project other q (f r) := by
  have each := (simple.columns.resolve_left (by simp [named])).2
  unfold project
  rw [if_neg (by simp [named]), if_neg (by simp [named])]
  funext name
  cases found : q.columns.find? (·.name == name) with
  | none => rfl
  | some b =>
    simp only [Option.map_some, Option.getD_some, e.value_agree agree (each b (List.mem_of_find?_eq_some found)) r]

theorem answer_agree (agree : ReadsAs scope reading other id) (simple : q.Simple scope) (source : Relation) :
    e.answer reading q source = e.answer other q source := by
  have passes : e.passes reading q.filter = e.passes other q.filter := funext (e.passes_agree agree simple)
  have order : e.inOrder reading q.orderBy = e.inOrder other q.orderBy :=
    funext fun a => funext fun b => e.inOrder_agree agree simple a b
  have project : e.project reading q = e.project other q := by
    cases wild : q.isWildcard with
    | false => exact funext (e.project_agree agree simple wild)
    | true => rw [e.project_wildcard wild, e.project_wildcard wild]
  unfold answer sort
  rw [passes, order, project]

/-! ### A select over a select -/

theorem binary_and (a b : Value) : e.binary .and a b = .bool true ↔ a = .bool true ∧ b = .bool true := by
  have isTrue (v : Value) : v = .bool true ↔ v.bool? = some true := by cases v <;> simp [Value.bool?]
  have value : e.binary .and a b = Truth.value (Truth.both a.bool? b.bool?) := rfl
  rw [value, isTrue a, isTrue b]
  generalize a.bool? = x
  generalize b.bool? = y
  rcases x with _ | _ | _ <;> rcases y with _ | _ | _ <;> simp [Truth.both, Truth.value]

theorem value_both (columns : Column → Value) (a b : Node) : e.value columns (.both a b) = .bool true ↔
    e.value columns a = .bool true ∧ e.value columns b = .bool true := by
  have value : e.value columns (.both a b) = e.binary .and (e.value columns a) (e.value columns b) :=
    Node.evaluate_mk _ _ (by simp [Shape.kind])
  rw [value, e.binary_and]

theorem passes_merged (inner outer : Option Node) (r : Record) :
    e.passes reading (Pass.mergeFilters inner outer) r = (e.passes reading inner r && e.passes reading outer r) := by
  cases inner with
  | none => simp [Pass.mergeFilters, passes]
  | some i =>
    cases outer with
    | none => simp [Pass.mergeFilters, passes]
    | some o => simp [Pass.mergeFilters, passes, e.value_both]

end Engine

namespace Select

variable {scope : Column → Bool} {q : Select Node}

theorem isWildcard_column (wild : q.isWildcard = true) {b : Binding Node} (column : b ∈ q.columns) :
    b.isWildcard = true ∧ ∃ c, b.expr = .column c ∧ c.name = Node.wildcard := by
  obtain ⟨named, reference⟩ := Bool.and_eq_true_iff.mp (List.all_eq_true.mp wild b column)
  obtain ⟨name, s⟩ := b
  refine ⟨named, ?_⟩
  obtain ⟨s⟩ := s
  cases s <;> first | exact ⟨_, rfl, by simpa [Node.column?] using reference⟩ | cases reference

theorem Simple.column_bound (simple : q.Simple scope) {b : Binding Node} (column : b ∈ q.columns) :
    b.expr.isBound (fun _ => true) = true := by
  rcases simple.columns with wild | ⟨-, each⟩
  · obtain ⟨-, c, reference, -⟩ := isWildcard_column wild column
    rw [reference, Node.isBound_column]
  · exact Node.isBound_mono (fun _ _ => rfl) (each b column)

theorem Simple.flatMap_children {β : Type} (simple : q.Simple scope) (g : Node → List β)
    (nothing : ∀ n, n.isBound (fun _ => true) = true → g n = []) : q.children.flatMap g = q.source.toList.flatMap g := by
  have widen {n : Node} (bound : n.isBound scope = true) : g n = [] :=
    nothing n (Node.isBound_mono (fun _ _ => rfl) bound)
  have columns : (q.columns.map (·.expr)).flatMap g = [] := by
    rw [List.flatMap_map, List.flatMap_eq_nil_iff]
    exact fun b column => nothing b.expr (simple.column_bound column)
  have filter : q.filter.toList.flatMap g = [] := by
    rw [List.flatMap_eq_nil_iff]
    exact fun n member => widen (simple.filter n (Option.mem_toList.mp member))
  have orderBy : (q.orderBy.map (·.expr)).flatMap g = [] := by
    rw [List.flatMap_map, List.flatMap_eq_nil_iff]
    exact fun o member => widen (simple.orderBy o member)
  simp [children, List.flatMap_append, columns, filter, orderBy, simple.groupBy, simple.skip, simple.take]

theorem Simple.map_source (simple : q.Simple scope) (f : Node → Node)
    (still : ∀ n, n.isBound (fun _ => true) = true → f n = n) : q.map f = { q with source := q.source.map f } := by
  have widen {n : Node} (bound : n.isBound scope = true) : f n = n :=
    still n (Node.isBound_mono (fun _ _ => rfl) bound)
  have columns : q.columns.map (·.map f) = q.columns := by
    refine (List.map_congr_left fun b column => ?_).trans (List.map_id _)
    rw [Binding.map, still b.expr (simple.column_bound column)]
    rfl
  have filter : q.filter.map f = q.filter := by
    cases found : q.filter with
    | none => rfl
    | some n => rw [Option.map_some, widen (simple.filter n found)]
  have orderBy : q.orderBy.map (·.map f) = q.orderBy := by
    refine (List.map_congr_left fun o member => ?_).trans (List.map_id _)
    rw [OrderItem.map, widen (simple.orderBy o member)]
    rfl
  simp [Select.map, columns, filter, orderBy, simple.groupBy, simple.skip, simple.take]

theorem Simple.inheritsOrder (simple : q.Simple scope) : Pass.inheritsOrder q = true := by
  have none : q.columns.any (·.expr.aggregates) = false := by
    rw [List.any_eq_false]
    exact fun b column => by simp [Node.aggregates_ofBound (simple.column_bound column)]
  simp [Pass.inheritsOrder, simple.groupBy, simple.distinct, none]

end Select

namespace Engine

variable (e : Engine) {reading : Reading} {outer inner : Select Node} {scope inside : Column → Bool}

theorem merge_simple (ofOuter : outer.Simple inside) (ofInner : inner.Simple scope)
    (within : ∀ c, inside c = true → scope c = true) : (Pass.merge outer inner).Simple scope := by
  have ofOuter := ofOuter.mono within
  have both {a b : Node} (first : a.isBound scope = true) (second : b.isBound scope = true) :
      (Node.both a b).isBound scope = true := by
    rw [Node.both, Node.ofBinary, Node.isBound_mk (by simp [Shape.kind])]
    simp [Shape.isScalar, Shape.children, first, second]
  refine { ofOuter with filter := Pass.mergeFilters_holds both ofInner.filter ofOuter.filter, orderBy := fun o member => ?_ }
  simp only [Pass.merge, Pass.mergeOrder, ofOuter.inheritsOrder, if_true] at member
  split at member
  · exact ofOuter.orderBy o member
  · exact ofInner.orderBy o member

/-- What a row gives to the outer select, read from a row below the inner one. -/
theorem project_merged (ofOuter : outer.Simple inside) (agree : ReadsAs inside reading byName (e.project reading inner))
    (wild : outer.isWildcard = true → inner.isWildcard = true) (r : Record) :
    e.project byName outer (e.project reading inner r) = e.project reading (Pass.merge outer inner) r := by
  have same : e.project reading (Pass.merge outer inner) = e.project reading outer := rfl
  rw [same]
  cases named : outer.isWildcard with
  | true =>
    rw [e.project_wildcard named, e.project_wildcard (wild named), e.project_wildcard named]
    rfl
  | false => exact (e.project_agree agree ofOuter named r).symm

/-- The rows of a select over a select, all read from the rows below. -/
theorem answer_answer (ofOuter : outer.Simple inside) (agree : ReadsAs inside reading byName (e.project reading inner))
    (wild : outer.isWildcard = true → inner.isWildcard = true) (source : Relation) :
    (e.answer byName outer (e.answer reading inner source)).rows =
      (e.sort reading outer.orderBy (e.sort reading inner.orderBy
        (source.rows.filter (e.passes reading (Pass.merge outer inner).filter)))).map
          (e.project reading (Pass.merge outer inner)) := by
  -- The outer filter goes below the inner order and projection, and the inner projection above the outer order.
  have kept : (source.rows.filter (e.passes reading inner.filter)).filter (e.passes reading outer.filter) =
      source.rows.filter (e.passes reading (Pass.merge outer inner).filter) := by
    rw [List.filter_filter]
    exact List.filter_congr fun r _ => by rw [Pass.merge, e.passes_merged, Bool.and_comm]
  have passes : e.passes byName outer.filter ∘ e.project reading inner = e.passes reading outer.filter :=
    funext fun r => (e.passes_agree agree ofOuter r).symm
  have projected : e.project byName outer ∘ e.project reading inner = e.project reading (Pass.merge outer inner) :=
    funext (e.project_merged ofOuter agree wild)
  unfold answer
  dsimp only
  rw [List.filter_map, passes, e.sort_filter, kept, ← e.sort_map (e.inOrder_agree agree ofOuter), List.map_map, projected]

/-- A select over a select has the rows of the two in one, where the columns of the inner one read as what it gives.
The order of the inner one is lost where the outer one has its own. -/
theorem answer_merge (ofOuter : outer.Simple inside) (agree : ReadsAs inside reading byName (e.project reading inner))
    (wild : outer.isWildcard = true → inner.isWildcard = true) (source : Relation) :
    (e.answer reading (Pass.merge outer inner) source).rows.Perm
        (e.answer byName outer (e.answer reading inner source)).rows ∧
      (outer.orderBy = [] ∨ inner.orderBy = [] → (e.answer reading (Pass.merge outer inner) source).rows =
        (e.answer byName outer (e.answer reading inner source)).rows) := by
  have order : (Pass.merge outer inner).orderBy = if outer.orderBy = [] then inner.orderBy else outer.orderBy := by
    simp [Pass.merge, Pass.mergeOrder, ofOuter.inheritsOrder]
  rw [e.answer_answer ofOuter agree wild]
  unfold answer
  dsimp only
  rw [order]
  by_cases unordered : outer.orderBy = []
  · rw [if_pos unordered, unordered, e.sort_nil]
    exact ⟨.refl _, fun _ => rfl⟩
  · rw [if_neg unordered]
    refine ⟨List.Perm.map _ ?_, fun either => ?_⟩
    · exact (e.sort_perm _ _).trans ((e.sort_perm _ _).trans (e.sort_perm _ _)).symm
    · rw [either.resolve_left unordered, e.sort_nil]

end Engine

end QueryTree
