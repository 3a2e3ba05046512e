import QueryTree.Proofs.Command.SharedText
import QueryTree.Proofs.Dialect.Roles

/-! What has a text.

A text fails where a part of it does, where the dialect has no words for a layer, or where a layer stands in a role that
is not its own. Nothing else about the parts counts, so whether there is a text is told layer by layer.
-/

set_option autoImplicit false

namespace QueryTree

section Results

variable {ε α β γ : Type}

theorem isOk_pure (a : α) : (pure a : Except ε α).isOk = true := rfl

theorem isOk_map (g : α → β) (x : Except ε α) : (g <$> x).isOk = x.isOk := by
  cases x <;> rfl

theorem isOk_return (x : Except ε α) (g : α → β) : (do return g (← x) : Except ε β).isOk = x.isOk := by
  cases x <;> rfl

theorem isOk_return₂ (x : Except ε α) (y : Except ε β) (g : α → β → γ) :
    (do return g (← x) (← y) : Except ε γ).isOk = (x.isOk && y.isOk) := by
  cases x <;> cases y <;> rfl

theorem isOk_mapM (f : α → Except ε β) (l : List α) : (l.mapM f).isOk = l.all fun a => (f a).isOk := by
  induction l with
  | nil => rfl
  | cons a rest ih => rw [List.mapM_cons, List.all_cons, ← ih, isOk_return₂]

end Results

/-! ### Expressions -/

theorem spellList_isOk (separator : String) (spellings : List Spelling) (p : Place) :
    (spellList separator spellings p).isOk = spellings.all fun s => (s p).isOk := by
  rw [spellList, isOk_return, isOk_mapM]

namespace Dialect

variable (d : Dialect) (p : Place)

theorem operand_isOk (s : Spelled) : (d.operand s p).isOk = (s.expr p).isOk := isOk_return ..

theorem exprList_isOk (spelled : List Spelled) : (exprList spelled p).isOk = spelled.all fun s => (s.expr p).isOk := by
  rw [exprList, spellList_isOk, List.all_map]
  rfl

theorem constantExpr_isOk {p : Place} (outside : p.inline = false) (value : Value) (type : DataType) :
    (d.constantExpr value type p).isOk = true := by
  unfold constantExpr
  rw [outside]
  cases value <;> rfl

theorem binaryExpr_isOk (op : BinaryOp) {left right : Spelled}
    (first : left.node.constant? = some .null → (left.expr p).isOk = true)
    (second : right.node.constant? = some .null → (right.expr p).isOk = true) :
    (d.binaryExpr op left right p).isOk = ((left.expr p).isOk && (right.expr p).isOk) := by
  unfold binaryExpr
  split
  · rename_i tested found
    rw [isOk_return, operand_isOk]
    unfold nullTested at found
    split at found
    · cases found
    · split at found
      · rename_i null
        cases found
        rw [second null, Bool.and_true]
      · split at found
        · rename_i null
          cases found
          rw [first null, Bool.true_and]
        · cases found
  · rw [isOk_return₂, operand_isOk, operand_isOk]

theorem unaryExpr_isOk (op : UnaryOp) (operand : Spelled) : (d.unaryExpr op operand p).isOk = (operand.expr p).isOk := by
  cases op <;> exact (isOk_return ..).trans (d.operand_isOk p operand)

theorem operatorTail_isOk (s : RoutineSpelling) (arguments : List Spelled) :
    (d.operatorTail s arguments p).isOk = arguments.all fun a => (a.expr p).isOk := by
  induction arguments with
  | nil => rfl
  | cons a rest ih => rw [operatorTail, isOk_return₂, ih, operand_isOk, List.all_cons]

theorem typeName_isOk (type : DataType) : (d.typeName type).isOk = (d.columnType type.underlying).isSome := by
  unfold typeName
  cases d.columnType type.underlying <;> rfl

theorem spelledCall_isOk (s : RoutineSpelling) (arguments : List Spelled) : (d.spelledCall s arguments p).isOk =
    ((!s.isOperator || 0 < arguments.length) && arguments.all fun a => (a.expr p).isOk) := by
  unfold spelledCall
  split
  · rename_i operator
    cases arguments with
    | nil => simp [operator, Except.isOk, Except.toBool]
    | cons first rest =>
      rw [isOk_return₂, operand_isOk, operatorTail_isOk]
      simp
  · rename_i call
    rw [isOk_return, exprList_isOk]
    simp [call]

theorem callExpr_isOk (routine : Routine) (arguments : List Spelled) (type : DataType) :
    (d.callExpr routine arguments type p).isOk =
      (d.calls routine arguments.length type && arguments.all fun a => (a.expr p).isOk) := by
  unfold callExpr
  split
  -- A membership needs at least one item, and a cast below exactly one argument.
  · rcases arguments with _ | ⟨sought, _ | ⟨item, items⟩⟩
    · simp [calls, membershipExpr, Except.isOk, Except.toBool]
    · simp [calls, membershipExpr, Except.isOk, Except.toBool]
    · rw [membershipExpr, isOk_return₂, operand_isOk, exprList_isOk]
      · simp [calls]
      · exact List.cons_ne_nil item items
  · rcases arguments with _ | ⟨argument, _ | ⟨next, rest⟩⟩
    · simp [calls, castExpr, Except.isOk, Except.toBool]
    · rw [castExpr, isOk_return₂, typeName_isOk, Bool.and_comm]
      simp [calls]
    · simp [calls, castExpr, Except.isOk, Except.toBool]
  · rename_i notIn notCast
    have calls : d.calls routine arguments.length type =
        (d.routine routine).any fun s => !s.isOperator || 0 < arguments.length := by
      cases routine <;> first | rfl | exact absurd rfl notIn | exact absurd rfl notCast
    rw [calls]
    cases d.routine routine with
    | none => rfl
    | some s => exact d.spelledCall_isOk p s arguments

theorem aggregateExpr_isOk (kind : AggregateKind) (argument : Option Spelled) (distinct : Bool) :
    (d.aggregateExpr kind argument distinct p).isOk = argument.all fun a => (a.expr p).isOk := by
  cases argument with
  | none => rfl
  | some a => exact isOk_return ..

theorem subqueryExpr_isOk (kind : SubqueryKind) (operand : Option Spelled) (query : Spelled)
    (alone : (query.query p).isOk = true → query.node.select?.isSome = true) :
    (d.subqueryExpr kind operand query p).isOk = ((kind ≠ .isIn || operand.isSome) &&
      ((if kind = .isIn then operand.all fun o => (o.expr p).isOk else true) && (query.query p).isOk)) := by
  unfold subqueryExpr
  split
  · rename_i other
    have failed : (query.query p).isOk = false := by
      refine Bool.eq_false_iff.mpr fun written => ?_
      rw [Option.isNone_iff_eq_none.mp other] at alone
      cases alone written
    rw [failed, Bool.and_false, Bool.and_false]
    rfl
  · cases kind with
    | isIn =>
      cases operand with
      | none => rfl
      | some o =>
        rw [isOk_return₂, operand_isOk]
        simp
    | scalar | «exists» =>
      rw [isOk_return]
      simp

theorem orderList_isOk (items : List (OrderItem Spelled)) :
    (orderList items p).isOk = items.all fun o => (o.expr.expr p).isOk := by
  have item (o : OrderItem Spelled) : (orderItem o p).isOk = (o.expr.expr p).isOk := by
    unfold orderItem
    cases o.direction <;> exact isOk_return ..
  rw [orderList, spellList_isOk, List.all_map]
  exact congrArg (List.all items) (funext item)

theorem overExpr_isOk (source : Spelled) (orderBy : List (OrderItem Spelled)) :
    (overExpr source orderBy p).isOk = ((source.expr p).isOk && orderBy.all fun o => (o.expr.expr p).isOk) := by
  unfold overExpr
  split
  · rename_i empty
    rw [List.isEmpty_iff.mp empty, List.all_nil, Bool.and_true]
    exact isOk_return ..
  · rw [← orderList_isOk]
    exact isOk_return₂ ..

theorem conditionalExpr_isOk (branches : List (Branch Spelled)) (otherwise : Option Spelled) :
    (conditionalExpr branches otherwise p).isOk =
      ((branches.all fun b => (b.condition.expr p).isOk && (b.result.expr p).isOk) &&
        otherwise.all fun o => (o.expr p).isOk) := by
  have tests : (spellList "" (branches.map branchText) p).isOk =
      branches.all fun b => (b.condition.expr p).isOk && (b.result.expr p).isOk := by
    rw [spellList_isOk, List.all_map]
    exact congrArg (List.all branches) (funext fun b => isOk_return₂ ..)
  rw [← tests]
  unfold conditionalExpr
  cases otherwise with
  | none => exact (isOk_return ..).trans (Bool.and_true _).symm
  | some o => exact isOk_return₂ _ (o.expr p) _

/-! ### Selects and sources -/

theorem clauses_isOk (spellings : List (Option Spelling)) :
    (clauses spellings p).isOk = spellings.all fun o => o.all fun s => (s p).isOk := by
  rw [clauses, spellList_isOk, List.all_filterMap]
  rfl

theorem clause_isOk (words : String) (s : Spelling) : (clause words s p).isOk = (s p).isOk := isOk_return ..

theorem projected_isOk (b : Binding Spelled) : (d.projected b p).isOk = (b.isWildcard || (b.expr.expr p).isOk) := by
  unfold projected
  split
  · rename_i wild
    rw [wild]
    rfl
  · rename_i named
    rw [isOk_return, Bool.eq_false_iff.mpr named, Bool.false_or]

theorem selectClause_isOk (s : Select Spelled) : (d.selectClause s p).isOk =
    ((d.topClause s p).isOk && s.columns.all fun b => b.isWildcard || (b.expr.expr p).isOk) := by
  have listed : (spellList ", " (s.columns.map d.projected) p).isOk =
      s.columns.all fun b => b.isWildcard || (b.expr.expr p).isOk := by
    rw [spellList_isOk, List.all_map]
    exact congrArg (List.all s.columns) (funext (d.projected_isOk p))
  unfold selectClause
  dsimp only
  split
  · rename_i empty
    rw [List.isEmpty_iff.mp empty]
    exact (isOk_return ..).trans (Bool.and_true _).symm
  · rw [← listed]
    exact isOk_return₂ ..

theorem orderClause_isOk (s : Select Spelled) :
    ((d.orderClause s).all fun c => (c p).isOk) = s.orderBy.all fun o => (o.expr.expr p).isOk := by
  unfold orderClause
  split
  · rw [← orderList_isOk]
    exact clause_isOk ..
  · rename_i empty
    have none : s.orderBy = [] := by simpa using empty
    rw [none]
    split <;> rfl

theorem limits_isOk (s : Select Spelled) :
    ((d.topClause s p).isOk && (d.limitClauses s).all fun o => o.all fun c => (c p).isOk) =
      ((s.skip.all fun n => (n.expr p).isOk) && s.take.all fun n => (n.expr p).isOk) := by
  unfold topClause limitClauses
  cases d.limitStyle <;> cases d.unboundedLimit <;> cases s.take <;> cases s.skip <;>
    simp [isOk_pure, isOk_map, clause_isOk, fixed, Bool.and_comm]

theorem selectText_isOk (s : Select Spelled) : (d.selectText s p).isOk = true ↔
    (∀ b ∈ s.columns, b.isWildcard = true ∨ (b.expr.expr (p.within s.label)).isOk = true) ∧
      (∀ c ∈ s.source, (c.source (p.within s.label)).isOk = true) ∧
      (∀ f ∈ s.filter, (f.expr (p.within s.label)).isOk = true) ∧
      (∀ g ∈ s.groupBy, (g.expr (p.within s.label)).isOk = true) ∧
      (∀ o ∈ s.orderBy, (o.expr.expr (p.within s.label)).isOk = true) ∧
      (∀ n ∈ s.skip, (n.expr (p.within s.label)).isOk = true) ∧
      ∀ n ∈ s.take, (n.expr (p.within s.label)).isOk = true := by
  have limits := d.limits_isOk (p.within s.label) s
  have group : ((if s.groupBy.isEmpty then none else some (clause "GROUP BY " (exprList s.groupBy))).all
      fun c => (c (p.within s.label)).isOk) = s.groupBy.all fun g => (g.expr (p.within s.label)).isOk := by
    split
    · rename_i empty
      rw [List.isEmpty_iff.mp empty]
      rfl
    · rw [← exprList_isOk]
      exact clause_isOk ..
  -- A lock is a fixed text or not written at all, so it cannot fail.
  have lock :
      ((if s.forUpdate then d.forUpdate.map fixed else none).all fun c => (c (p.within s.label)).isOk) = true := by
    cases s.forUpdate <;> cases d.forUpdate <;> rfl
  rw [selectText, clauses_isOk]
  simp only [List.all_append, List.all_cons, List.all_nil, Option.all_some, selectClause_isOk, Option.all_map, group,
    orderClause_isOk, lock, clause_isOk, Bool.and_true]
  rw [Bool.eq_iff_iff] at limits
  simp only [Bool.and_eq_true, Bool.or_eq_true, List.all_eq_true, Option.all_eq_true, Option.mem_def] at limits ⊢
  grind

theorem joinText_isOk (kind : JoinKind) (left right : Spelled) (condition : Option Spelled) :
    (d.joinText kind left right condition p).isOk = ((d.joinKeyword kind).isSome &&
      ((left.source p).isOk && ((right.source p).isOk && condition.all fun c => (c.expr p).isOk))) := by
  unfold joinText
  cases d.joinKeyword kind with
  | none => rfl
  | some keyword =>
    cases left.source p with
    | error => rfl
    | ok leftText =>
      cases right.source p with
      | error => rfl
      | ok rightText =>
        cases condition with
        | none =>
          dsimp only [bind, Except.bind]
          split <;> rfl
        | some c =>
          cases written : c.expr p <;>
            simp [bind, Except.bind, written, pure, Except.pure, Except.isOk, Except.toBool]

end Dialect

/-! ### Nodes -/

/-- The text in a role; what is not written has none, and cannot fail. -/
def Spelled.text (s : Spelled) : Role → Spelling
  | .expression => s.expr
  | .source => s.source
  | .query => s.query
  | .unwritten => fun _ => pure []

/-- Where the children of a layer stand. -/
def Shape.place {α : Type} (p : Place) : Shape α → Place
  | .select q => p.within q.label
  | _ => p

namespace Dialect

variable (d : Dialect) {p : Place} {s : Shape Node} {q : Select Node} {r : Role}

theorem selectText_roles (eitherForm : Bool) : (d.selectText (q.map d.spell) p).isOk = true ↔
    ∀ x ∈ q.roles (d.draft eitherForm), ((d.spell x.2).text x.1 (p.within q.label)).isOk = true := by
  have column (b : Binding Node) : ((d.spell b.expr).text b.role (p.within q.label)).isOk = true ↔
      b.isWildcard = true ∨ ((d.spell b.expr).expr (p.within q.label)).isOk = true := by
    unfold Binding.role
    cases b.isWildcard with
    | true => exact ⟨fun _ => .inl rfl, fun _ => rfl⟩
    | false => exact (or_iff_right Bool.false_ne_true).symm
  have option (o : Option Node) (P : Spelled → Prop) : (∀ c ∈ o.map d.spell, P c) ↔ ∀ c ∈ o, P (d.spell c) := by
    cases o <;> simp
  rw [selectText_isOk, Select.forall_roles (P := fun r n => ((d.spell n).text r (p.within q.label)).isOk = true)]
  simp only [column, Select.map, List.forall_mem_map, option]
  rfl

theorem query_select {n : Node} (written : ((d.spell n).query p).isOk = true) : n.select?.isSome = true := by
  obtain ⟨s⟩ := n
  rw [spell_mk] at written
  cases s with
  | select => rfl
  | _ => cases written

theorem literal_isOk (outside : p.inline = false) {n : Node} {value : Value} (literal : n.constant? = some value) :
    ((d.spell n).expr p).isOk = true := by
  obtain ⟨type, rfl⟩ := Node.constant_some literal
  rw [spell_mk]
  exact d.constantExpr_isOk outside value type

theorem exprText_isOk (outside : p.inline = false) (uniform : s.isUniform = true) (eitherForm : Bool) :
    (d.exprText (s.map d.spell) p).isOk =
      (s.fits (d.draft eitherForm) .expression && s.children.all fun c => ((d.spell c).expr p).isOk) := by
  have null (n : Node) (literal : (d.spell n).node.constant? = some .null) : ((d.spell n).expr p).isOk = true :=
    d.literal_isOk outside (d.spell_node n ▸ literal)
  cases s with
  | select | groupAggregate | join | subquery => cases uniform
  | column | placeholder | parameter => rfl
  | constant value type => exact d.constantExpr_isOk outside value type
  | binary op left right type =>
    exact (d.binaryExpr_isOk p op (null left) (null right)).trans (by simp [Shape.children, Shape.fits])
  | unary op operand type => exact (d.unaryExpr_isOk p op (d.spell operand)).trans (by simp [Shape.children, Shape.fits])
  | conditional branches otherwise type =>
    refine (conditionalExpr_isOk p (branches.map (·.map d.spell)) (otherwise.map d.spell)).trans ?_
    cases otherwise <;>
      simp [Shape.children, Shape.fits, List.all_map, List.all_flatMap, Function.comp_def, Branch.children, Branch.map]
  | call routine arguments type =>
    refine (d.callExpr_isOk p routine (arguments.map d.spell) type).trans ?_
    simp [Shape.fits, Shape.children, draft, List.all_map, Function.comp_def]
  | aggregate kind argument distinct type =>
    refine (d.aggregateExpr_isOk p kind (argument.map d.spell) distinct).trans ?_
    cases argument <;> simp [Shape.fits, Shape.children]
  | window source orderBy =>
    refine (overExpr_isOk p (d.spell source) (orderBy.map (·.map d.spell))).trans ?_
    simp [Shape.fits, Shape.children, List.all_map, Function.comp_def, OrderItem.map]
  | _ => rfl

/-- The text of a layer fails exactly where the layer does not fit its role or one of its parts fails. An aggregate over a
group is left out: where it stands tells which of its forms is written. -/
theorem text_isOk (outside : p.inline = false) (notGroup : s.kind ≠ .groupAggregate) (eitherForm : Bool) :
    ((d.spell (.mk s)).text r p).isOk = true ↔ s.fits (d.draft eitherForm) r = true ∧
      ∀ x ∈ s.roles (d.draft eitherForm) r, ((d.spell x.2).text x.1 (s.place p)).isOk = true := by
  by_cases written : r = .unwritten
  · subst written
    rw [Shape.roles_unwritten rfl, List.forall_mem_map]
    exact ⟨fun _ => ⟨rfl, fun _ _ => rfl⟩, fun _ => rfl⟩
  rw [spell_mk]
  -- Uniform layers are expressions of expressions. The others give their children roles of their own.
  by_cases uniform : s.isUniform = true
  · rw [Shape.roles_uniform uniform, List.forall_mem_map]
    cases r with
    | unwritten => exact absurd rfl written
    | expression =>
      have place : s.place p = p := by cases s <;> first | rfl | cases uniform
      rw [place, ← List.all_eq_true, ← Bool.and_eq_true]
      exact Bool.eq_iff_iff.mp (d.exprText_isOk outside uniform eitherForm)
    | source =>
      cases s with
      | select | groupAggregate | join | subquery => cases uniform
      | table => exact ⟨fun _ => ⟨rfl, fun _ member => absurd member List.not_mem_nil⟩, fun _ => rfl⟩
      | _ => exact iff_of_false Bool.false_ne_true fun parts => Bool.false_ne_true parts.1
    | query =>
      cases s with
      | select | groupAggregate | join | subquery => cases uniform
      | _ => exact iff_of_false Bool.false_ne_true fun parts => Bool.false_ne_true parts.1
  · cases s with
    | select q =>
      rw [Shape.roles_select written]
      have fits : (Shape.select q).fits (d.draft eitherForm) r = true := by cases r <;> rfl
      rw [and_iff_right fits]
      refine Iff.trans (Bool.eq_iff_iff.mp ?_) (d.selectText_roles eitherForm)
      cases r with
      | unwritten => exact absurd rfl written
      | query => rfl
      | source | expression => exact isOk_return ..
    | groupAggregate => exact absurd rfl notGroup
    | join kind left right condition =>
      cases r with
      | unwritten => exact absurd rfl written
      | query | expression => exact iff_of_false Bool.false_ne_true fun parts => Bool.false_ne_true parts.1
      | source =>
        have words := d.joinText_isOk p kind (d.spell left) (d.spell right) (condition.map d.spell)
        refine (Bool.eq_iff_iff.mp words).trans ?_
        cases condition <;> simp [Shape.fits, Shape.roles, Role.within, Spelled.text, Shape.place, draft]
    | subquery kind operand query type =>
      cases r with
      | unwritten => exact absurd rfl written
      | query | source => exact iff_of_false Bool.false_ne_true fun parts => Bool.false_ne_true parts.1
      | expression =>
        refine (Bool.eq_iff_iff.mp (d.subqueryExpr_isOk p kind (operand.map d.spell) (d.spell query) ?_)).trans ?_
        · rw [spell_node]
          exact d.query_select
        · cases kind <;> cases operand <;>
            simp [Shape.fits, Shape.roles, Role.within, Spelled.text, Shape.place, isOk_pure]
    | _ => exact absurd rfl uniform

/-- A node that can be written has a text wherever it stands. -/
theorem text_ofWritable {n : Node} (outside : p.inline = false) (writable : n.Writable (d.draft false) r) :
    ((d.spell n).text r p).isOk = true := by
  induction n using Node.inductNode generalizing r p with
  | step s ih =>
    have below {x : Role × Node} (member : x ∈ s.roles (d.draft false) r) {p : Place} (outside : p.inline = false) :
        ((d.spell x.2).text x.1 p).isOk = true :=
      ih x.2 (Shape.roles_child member) outside ((Node.writable_mk.mp writable).2 x member)
    -- Of a grouped aggregate one of two forms is written, depending on the place, so both have to be writable.
    by_cases group : s.kind = .groupAggregate
    · cases s with
      | groupAggregate label inGroup asQuery type =>
        cases r with
        | unwritten => rfl
        | source | query => cases (Node.writable_mk.mp writable).1
        | expression =>
          have first := below (x := (.expression, inGroup)) (by simp [Shape.roles, Draft.form, draft]) outside
          have second := below (x := (.expression, asQuery)) (by simp [Shape.roles, Draft.form, draft]) outside
          rw [spell_mk]
          change (groupAggregateExpr label (d.spell inGroup) (d.spell asQuery) p).isOk = true
          unfold groupAggregateExpr
          split
          · exact first
          · exact second
      | _ => cases group
    · refine (d.text_isOk outside group false).mpr ⟨(Node.writable_mk.mp writable).1, fun x member => below member ?_⟩
      cases s <;> exact outside

/-- What has a text somewhere can be written, up to the forms of aggregates over groups. -/
theorem writable_ofText {n : Node} (outside : p.inline = false) (written : ((d.spell n).text r p).isOk = true) :
    n.Writable (d.draft true) r := by
  induction n using Node.inductNode generalizing r p with
  | step s ih =>
    by_cases group : s.kind = .groupAggregate
    · cases s with
      | groupAggregate label inGroup asQuery type =>
        rw [spell_mk] at written
        cases r with
        | source | query => cases written
        | unwritten => exact Node.writable_unwritten rfl _
        | expression =>
          have form (c : Node) : c.Writable (d.draft true) .unwritten := Node.writable_unwritten rfl c
          exact Node.writable_mk.mpr ⟨rfl, by simpa [Shape.roles, Draft.form, draft] using ⟨form inGroup, form asQuery⟩⟩
      | _ => cases group
    · obtain ⟨fits, parts⟩ := (d.text_isOk outside group true).mp written
      refine Node.writable_mk.mpr ⟨fits, fun x member => ?_⟩
      refine ih x.2 (Shape.roles_child member) ?_ (parts x member)
      cases s <;> exact outside

theorem format_isOk (n : Node) : (d.format n).isOk = ((d.spell n).statement {}).isOk := by
  rw [format_statements, isOk_map]
  exact (d.statement_groups {} n).isOk.symm

theorem format_ofWritable {n : Node} (writable : n.Writable (d.draft false) .expression) : (d.format n).isOk = true := by
  rw [format_isOk]
  have written := d.text_ofWritable (p := {}) rfl writable
  have fits := (Node.writable_mk (s := n.shape).mp (by simpa using writable)).1
  obtain ⟨s⟩ := n
  rw [spell_mk] at written ⊢
  cases s with
  | select q => exact (Bool.eq_iff_iff.mp (isOk_return ..)).mp written
  | _ => first | exact written | cases fits

theorem writable_ofFormat {n : Node} (part : n.isPart = true) (formats : (d.format n).isOk = true) :
    n.Writable (d.draft true) .expression := by
  rw [format_isOk] at formats
  refine d.writable_ofText (p := {}) rfl ?_
  obtain ⟨s⟩ := n
  rw [spell_mk] at formats ⊢
  cases s with
  | select q => exact (Bool.eq_iff_iff.mp (isOk_return ..)).mpr formats
  | _ => first | exact formats | cases part

end Dialect

end QueryTree
