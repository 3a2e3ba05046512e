import QueryTree.Amend.RowNumbers
import QueryTree.Dialect.Shipped
import QueryTree.Proofs.Command.SharedText

/-! The form of an aggregate over a group, by the query it stands in.

Of what surrounds an expression its text shows the innermost query only, and that only in the aggregates over it. So an
expression without these is written alike in all queries. Where rows are numbered, the columns of a group come to stand
in a query of another label, and its aggregates are no more written as aggregates of the group.
-/

set_option autoImplicit false

namespace QueryTree

namespace Node

/-- An aggregate over the group select stands in the tree, one that belongs to a nested query aside. -/
def aggregatesOver (label : String) : Node → Bool :=
  fold fun
    | .select _ => false
    | .groupAggregate owner _ asQuery _ => owner == label || asQuery
    | s => s.children.any id

theorem aggregatesOver_mk (label : String) (s : Shape Node) : (Node.mk s).aggregatesOver label =
    match s with
    | .select _ => false
    | .groupAggregate owner _ asQuery _ => owner == label || asQuery.aggregatesOver label
    | s => s.children.any (aggregatesOver label) := by
  have rest (s : Shape Node) : (s.map (aggregatesOver label)).children.any id =
      s.children.any (aggregatesOver label) := by
    rw [Shape.children_map, List.any_map]
    rfl
  refine (fold_mk _ s).trans ?_
  cases s <;> first | rfl | exact rest _

end Node

namespace Dialect

variable {d : Dialect} {p q : Place}

/-- Written alike at both places. -/
structure Steady (p q : Place) (x : Spelled) : Prop where
  expr : x.expr p = x.expr q
  query : x.query p = x.query q

variable {x y : Spelled} {xs : List Spelled}

theorem operand_congr (same : Steady p q x) : d.operand x p = d.operand x q := by
  unfold operand
  rw [same.expr]

theorem spellList_congr {γ : Type} {f : γ → Spelling} {l : List γ} (each : ∀ c ∈ l, f c p = f c q)
    (separator : String) : spellList separator (l.map f) p = spellList separator (l.map f) q := by
  have texts : (l.map f).mapM (· p) = (l.map f).mapM (· q) := by
    induction l with
    | nil => rfl
    | cons c rest ih =>
      rw [List.map_cons, List.mapM_cons, List.mapM_cons, each c List.mem_cons_self,
        ih fun c member => each c (List.mem_cons_of_mem _ member)]
  unfold spellList
  rw [texts]

theorem exprList_congr (each : ∀ c ∈ xs, Steady p q c) : exprList xs p = exprList xs q :=
  spellList_congr (fun c member => (each c member).expr) _

theorem binaryExpr_congr (op : BinaryOp) (left : Steady p q x) (right : Steady p q y) :
    d.binaryExpr op x y p = d.binaryExpr op x y q := by
  unfold binaryExpr
  split
  next tested found =>
    have either : tested = x ∨ tested = y := by
      unfold nullTested at found
      grind
    rcases either with rfl | rfl
    · rw [operand_congr left]
    · rw [operand_congr right]
  next => rw [operand_congr left, operand_congr right]

theorem unaryExpr_congr (op : UnaryOp) (same : Steady p q x) : d.unaryExpr op x p = d.unaryExpr op x q := by
  unfold unaryExpr
  rw [operand_congr same]

theorem operatorTail_congr (s : RoutineSpelling) (each : ∀ c ∈ xs, Steady p q c) :
    d.operatorTail s xs p = d.operatorTail s xs q := by
  induction xs with
  | nil => rfl
  | cons x rest ih =>
    unfold operatorTail
    rw [operand_congr (each x List.mem_cons_self), ih fun c member => each c (List.mem_cons_of_mem _ member)]

theorem callExpr_congr (routine : Routine) (type : DataType) (each : ∀ c ∈ xs, Steady p q c) :
    d.callExpr routine xs type p = d.callExpr routine xs type q := by
  have list {ys : List Spelled} (among : ys ⊆ xs) : exprList ys p = exprList ys q :=
    exprList_congr fun c member => each c (among member)
  have membership : d.membershipExpr xs p = d.membershipExpr xs q := by
    unfold membershipExpr
    split
    · rfl
    · rfl
    · dsimp only
      rw [operand_congr (each _ List.mem_cons_self), list (List.subset_cons_self _ _)]
  have cast : d.castExpr type xs p = d.castExpr type xs q := by
    unfold castExpr
    split
    · rw [(each _ List.mem_cons_self).expr]
    · rfl
  have spelled (s : RoutineSpelling) : d.spelledCall s xs p = d.spelledCall s xs q := by
    unfold spelledCall
    split
    · cases xs with
      | nil => rfl
      | cons first rest =>
        dsimp only
        rw [operand_congr (each first List.mem_cons_self),
          operatorTail_congr s fun c member => each c (List.mem_cons_of_mem _ member)]
    · rw [list (List.Subset.refl xs)]
  unfold callExpr
  split
  · exact membership
  · exact cast
  · cases d.routine _ with
    | some s => exact spelled s
    | none => rfl

theorem aggregateExpr_congr (kind : AggregateKind) {argument : Option Spelled} (distinct : Bool)
    (each : ∀ c ∈ argument, Steady p q c) :
    d.aggregateExpr kind argument distinct p = d.aggregateExpr kind argument distinct q := by
  unfold aggregateExpr
  cases argument with
  | none => rfl
  | some argument => simp only [(each argument rfl).expr]

theorem subqueryExpr_congr (kind : SubqueryKind) {operand : Option Spelled} (each : ∀ c ∈ operand, Steady p q c)
    (query : Steady p q x) : d.subqueryExpr kind operand x p = d.subqueryExpr kind operand x q := by
  unfold subqueryExpr
  rw [query.query]
  cases operand with
  | none => rfl
  | some operand => simp only [operand_congr (each operand rfl)]

theorem orderList_congr {items : List (OrderItem Spelled)} (each : ∀ o ∈ items, Steady p q o.expr) :
    orderList items p = orderList items q := by
  apply spellList_congr
  intro o member
  unfold orderItem
  rw [(each o member).expr]

theorem overExpr_congr {items : List (OrderItem Spelled)} (source : Steady p q x)
    (each : ∀ o ∈ items, Steady p q o.expr) : overExpr x items p = overExpr x items q := by
  unfold overExpr
  rw [source.expr, orderList_congr each]

theorem conditionalExpr_congr {branches : List (Branch Spelled)} {otherwise : Option Spelled}
    (each : ∀ b ∈ branches, Steady p q b.condition ∧ Steady p q b.result) (last : ∀ c ∈ otherwise, Steady p q c) :
    conditionalExpr branches otherwise p = conditionalExpr branches otherwise q := by
  have tests : spellList "" (branches.map branchText) p = spellList "" (branches.map branchText) q := by
    apply spellList_congr
    intro b member
    unfold branchText
    rw [(each b member).1.expr, (each b member).2.expr]
  unfold conditionalExpr
  rw [tests]
  cases otherwise with
  | none => rfl
  | some otherwise => simp only [(last otherwise rfl).expr]

/-- Whatever stands around a query, its parts stand in the query. -/
theorem query_steady (n : Node) (same : p.inline = q.inline) : (d.spell n).query p = (d.spell n).query q := by
  obtain ⟨s⟩ := n
  rw [spell_mk]
  cases s with
  | select s =>
    have within : p.within s.label = q.within s.label := by simp [Place.within, same]
    show d.selectText _ p = d.selectText _ q
    unfold selectText
    dsimp only [Select.map]
    rw [within]
  | _ => rfl

/-- What holds no aggregate over a select is written in the select as it is elsewhere. -/
theorem expr_within {n : Node} {label label' : String} (none : n.aggregatesOver label = false)
    (none' : n.aggregatesOver label' = false) (p : Place) :
    (d.spell n).expr (p.within label) = (d.spell n).expr (p.within label') := by
  induction n using Node.inductNode with
  | step s ih =>
    rw [Node.aggregatesOver_mk] at none none'
    have steady {c : Node} (child : c ∈ s.children) (none : c.aggregatesOver label = false)
        (none' : c.aggregatesOver label' = false) : Steady (p.within label) (p.within label') (d.spell c) :=
      ⟨ih c child none none', query_steady c rfl⟩
    have each (none : s.children.any (Node.aggregatesOver label) = false)
        (none' : s.children.any (Node.aggregatesOver label') = false) :
        ∀ c ∈ s.children, Steady (p.within label) (p.within label') (d.spell c) :=
      fun c child => steady child (by simpa using List.any_eq_false.mp none c child)
        (by simpa using List.any_eq_false.mp none' c child)
    rw [spell_mk]
    cases s with
    | groupAggregate owner inGroup asQuery type =>
      dsimp only at none none'
      rw [Bool.or_eq_false_iff] at none none'
      -- Over neither select, so it is written as a query in both.
      have other : owner ≠ label := by simpa using none.1
      have other' : owner ≠ label' := by simpa using none'.1
      show groupAggregateExpr owner (d.spell inGroup) (d.spell asQuery) _ = groupAggregateExpr owner _ _ _
      unfold groupAggregateExpr
      rw [if_neg (by simpa [Place.within] using other.symm), if_neg (by simpa [Place.within] using other'.symm)]
      exact (steady (by simp [Shape.children]) none.2 none'.2).expr
    -- The parts of a query stand in that query wherever it stands.
    | select q => rfl
    | binary op left right type =>
      have each := each none none'
      exact binaryExpr_congr op (each left (by simp [Shape.children])) (each right (by simp [Shape.children]))
    | unary op operand type => exact unaryExpr_congr op (each none none' operand (by simp [Shape.children]))
    | call routine arguments type => exact callExpr_congr routine type (List.forall_mem_map.mpr (each none none'))
    | aggregate kind argument distinct type =>
      exact aggregateExpr_congr kind distinct (by simpa [Shape.children] using each none none')
    | subquery kind operand query type =>
      have parts : (∀ c ∈ operand, Steady (p.within label) (p.within label') (d.spell c)) ∧
          Steady (p.within label) (p.within label') (d.spell query) := by
        simpa [Shape.children, or_imp, forall_and] using each none none'
      exact subqueryExpr_congr kind (by simpa using parts.1) parts.2
    | window source orderBy =>
      have parts := List.forall_mem_cons.mp (each none none')
      exact overExpr_congr parts.1 (by simpa [OrderItem.map] using parts.2)
    | conditional branches otherwise type =>
      have parts := Shape.forall_conditional.mp (each none none')
      exact conditionalExpr_congr (List.forall_mem_map.mpr parts.1) (by simpa using parts.2)
    | _ => rfl

theorem projected_within {b : Binding Node} {label label' : String} (none : b.expr.aggregatesOver label = false)
    (none' : b.expr.aggregatesOver label' = false) (p : Place) :
    d.projected (b.map d.spell) (p.within label) = d.projected (b.map d.spell) (p.within label') := by
  unfold projected
  dsimp only [Binding.map]
  rw [expr_within none none']

/-! ### Numbered rows -/

section Numbered

variable {s : Select Node}

/-- No aggregate over the select, nor over the one that holds its rows, stands in the expression. -/
def Unaggregated (s : Select Node) (n : Node) : Prop :=
  n.aggregatesOver s.label = false ∧ n.aggregatesOver (s.label ++ "_inner") = false

/-- Numbered rows have the columns of the select in the same words, as long as no aggregate is over it. -/
theorem numbered_columns (each : ∀ b ∈ s.columns, Unaggregated s b.expr) (p : Place) :
    spellList ", " (s.columns.map fun b => d.projected (b.map d.spell)) (p.within (s.label ++ "_inner")) =
      spellList ", " (s.columns.map fun b => d.projected (b.map d.spell)) (p.within s.label) := by
  apply spellList_congr
  intro b column
  exact projected_within (each b column).2 (each b column).1 p

theorem windowOrder_unaggregated (columns : ∀ b ∈ s.columns, Unaggregated s b.expr)
    (order : ∀ o ∈ s.orderBy, Unaggregated s o.expr) : ∀ o ∈ Amend.windowOrder s, Unaggregated s o.expr := by
  unfold Amend.windowOrder
  dsimp only
  split
  · exact order
  · split
    · rw [List.forall_mem_map]
      intro b column
      exact columns b (List.mem_of_mem_filter column)
    · rw [List.forall_mem_singleton]
      exact ⟨rfl, rfl⟩

theorem numbered_order (columns : ∀ b ∈ s.columns, Unaggregated s b.expr)
    (order : ∀ o ∈ s.orderBy, Unaggregated s o.expr) (p : Place) :
    orderList ((Amend.windowOrder s).map (·.map d.spell)) (p.within (s.label ++ "_inner")) =
      orderList ((Amend.windowOrder s).map (·.map d.spell)) (p.within s.label) := by
  apply orderList_congr
  rw [List.forall_mem_map]
  intro o item
  have unaggregated := windowOrder_unaggregated columns order o item
  exact ⟨expr_within unaggregated.2 unaggregated.1 p, query_steady o.expr rfl⟩

/-- An aggregate over the select changes its form: it is in its group no more. -/
theorem numbered_aggregate {inGroup asQuery : Node} {type : DataType} (p : Place) :
    (d.spell (.groupAggregate s.label inGroup asQuery type)).expr (p.within s.label) =
      (d.spell inGroup).expr (p.within s.label) ∧
    (d.spell (.groupAggregate s.label inGroup asQuery type)).expr (p.within (s.label ++ "_inner")) =
      (d.spell asQuery).expr (p.within (s.label ++ "_inner")) := by
  have other : s.label ++ "_inner" ≠ s.label := by
    intro same
    have lengths := congrArg String.length same
    rw [String.length_append] at lengths
    simp at lengths
  have text (label : String) : (d.spell (.groupAggregate s.label inGroup asQuery type)).expr (p.within label) =
      if label = s.label then (d.spell inGroup).expr (p.within label) else (d.spell asQuery).expr (p.within label) := by
    rw [spell_mk]
    show groupAggregateExpr s.label (d.spell inGroup) (d.spell asQuery) _ = _
    simp [groupAggregateExpr, Place.within]
  rw [text, text, if_pos rfl, if_neg other]
  exact ⟨rfl, rfl⟩

end Numbered

end Dialect

namespace Shipped

/-- What a group counts itself is asked for as a query where its rows are numbered. -/
theorem format_count :
    let count : Node := .aggregate .count none false .int32
    let key (label : String) : Node := .column ⟨label, "k", .int32⟩
    let query : Node := .select {
      label := "q", columns := [⟨"n", count⟩], source := some (.table "T" "t1" .void)
      filter := some (.binary .eq (key "t1") (key "g") .boolean) }
    let group (skip : Option Node) : Node := .select {
      label := "g"
      columns := [⟨"k", key "t0"⟩,
        ⟨"total", .groupAggregate "g" count (.subquery .scalar none query .int32) .int32⟩]
      source := some (.table "T" "t0" .void), groupBy := [key "t0"], skip }
    let d := (sqlServer .rowNumber).dialect
    let text (skip : Option Node) := Formatted.text <$> d.format (d.amend (group skip))
    text none = .ok "SELECT [t0].[k], COUNT(*) AS [total] FROM [T] AS [t0] GROUP BY [t0].[k]" ∧
      text (some (.literal (.int32 1))) = .ok ("SELECT [g_inner].[k], [g_inner].[total] FROM (SELECT [t0].[k], " ++
        "(SELECT COUNT(*) AS [n] FROM [T] AS [t1] WHERE [t1].[k] = [g].[k]) AS [total], " ++
        "ROW_NUMBER() OVER (ORDER BY [t0].[k]) AS [__rownum] FROM [T] AS [t0] GROUP BY [t0].[k]) AS [g_inner] " ++
        "WHERE [g_inner].[__rownum] > @p0 ORDER BY [g_inner].[__rownum]") := by
  decide +kernel

end Shipped

end QueryTree
