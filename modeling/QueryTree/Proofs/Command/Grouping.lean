import QueryTree.Proofs.Command.Operators
import QueryTree.Proofs.Command.SharedText
import QueryTree.Proofs.Node.Traversal

/-! Operands stay whole.

Whether an operand gets parentheses is decided by what kind of node it is. The texts of most other kinds are calls,
names, slots or in parentheses of their own, and hold no operator that a reader could take for one of those around
them. The kinds that hold one all the same are told by `exposes`.
-/

set_option autoImplicit false

namespace QueryTree

/-- What holds of the outcome, if there is one. -/
def Yields {ε α : Type} (P : α → Prop) (x : Except ε α) : Prop := ∀ a, x = .ok a → P a

namespace Yields

variable {ε α β γ : Type} {P : α → Prop} {Q : β → Prop} {x : Except ε α}

theorem ok {a : α} (holds : P a) : Yields P (.ok a : Except ε α) := by
  rintro _ ⟨⟩
  exact holds

theorem error (e : ε) : Yields P (.error e : Except ε α) := nofun

theorem mono {P' : α → Prop} (first : Yields P x) (weaker : ∀ a, P a → P' a) : Yields P' x :=
  fun a returned => weaker a (first a returned)

theorem bind {f : α → Except ε β} (first : Yields P x) (rest : ∀ a, P a → Yields Q (f a)) :
    Yields Q (x >>= f) := by
  cases x with
  | error e => exact error e
  | ok a => exact rest a (first a rfl)

theorem mapM {f : γ → Except ε α} {l : List γ} (each : ∀ c ∈ l, Yields P (f c)) :
    Yields (fun as => ∀ a ∈ as, P a) (l.mapM f) := by
  induction l with
  | nil => exact ok nofun
  | cons c rest ih =>
    obtain ⟨here, later⟩ := List.forall_mem_cons.mp each
    rw [List.mapM_cons]
    refine here.bind fun a head => (ih later).bind fun as tail => ok ?_
    exact List.forall_mem_cons.mpr ⟨head, tail⟩

end Yields

/-! ### What shows its operators -/

/-- Written with a minus in front. -/
def Value.isSigned : Value → Bool
  | .int32 n => n.toInt < 0
  | .int64 n => n.toInt < 0
  | .double x => x.isNegative && !x.isNaN
  | .decimal s => s.toList.head? = some '-'
  | _ => false

/-- Texts that are written as they are, without quotes; of a decimal, what stands behind the minus. -/
def Value.bareWords : Value → List String
  | .decimal s =>
    match s.toList with
    | '-' :: digits => [String.ofList digits]
    | _ => [s]
  | _ => []

def Shape.bareWords {α : Type} : Shape α → List String
  | .call routine _ _ => routine.words
  | .constant value _ => value.bareWords
  | _ => []

@[simp] theorem Shape.bareWords_map {α β : Type} (f : α → β) (s : Shape α) : (s.map f).bareWords = s.bareWords := by
  cases s <;> rfl

namespace Dialect

/-- One layer, where the children are known to show operators or not. -/
def exposesLayer (d : Dialect) (p : Place) : Shape Bool → Bool
  | .binary .. | .unary .. => true
  | .call routine _ _ => routine = .isIn || ((d.routine routine).map (·.isOperator)).getD false
  | .subquery kind _ _ _ => kind = .isIn
  -- The asterisk for all columns is read as a sign.
  | .column c => c.name == Node.wildcard
  | .constant value _ => p.inline && value.isSigned
  | .groupAggregate label inGroup asQuery _ => if p.scope = some label then inGroup else asQuery
  | .window source _ => source
  | _ => false

/-- Written as an expression, without parentheses around it, the node may show an operator. -/
def exposes (d : Dialect) (p : Place) : Node → Bool := Node.fold (d.exposesLayer p)

theorem exposes_mk (d : Dialect) (p : Place) (s : Shape Node) :
    d.exposes p (.mk s) = d.exposesLayer p (s.map (d.exposes p)) := Node.fold_mk _ _

end Dialect

open Text in
/-- What is written around the arguments of a routine closes what it opens; a name that is an operator stands inside
parentheses. -/
structure RoutineSpelling.Groups (s : RoutineSpelling) (depth : Nat) : Prop where
  name : Takes s.name s.isOperator.toNat s.isOperator.toNat
  opening : Leads s.opening 1 (depth + 1)
  closing : Ends s.closing (depth + 1) 1

namespace Dialect

open Text in
/-- A dialect closes what it opens, and shows operators only where it spells one. -/
structure Groups (d : Dialect) : Prop where
  marker : ∀ n, Takes (d.marker n) 0 0
  ident : ∀ name, Leads (d.quoteIdent name) 0 0
  literal : ∀ {value text}, (∀ s ∈ value.bareWords, Takes s 0 0) → d.literal value = .ok text →
    Takes text value.isSigned.toNat value.isSigned.toNat
  typeName : ∀ {type name}, d.typeName type = .ok name → Takes name 1 1
  routine : ∀ {routine s}, (∀ t ∈ routine.words, Takes t 0 0) → d.routine routine = some s → ∃ depth, s.Groups depth
  aggregate : ∀ kind, Takes (d.aggregate kind) 0 0
  joinKeyword : ∀ {kind words}, d.joinKeyword kind = some words → Takes words 1 1
  unboundedLimit : ∀ {words}, d.unboundedLimit = some words → Takes words 1 1
  forUpdate : ∀ {words}, d.forUpdate = some words → Takes words 1 1

/-- A node written as an expression shows the operators that `exposes` tells; inside parentheses nothing is found. -/
structure Grouped (d : Dialect) (s : Spelled) : Prop where
  expr : ∀ p, Yields (·.Takes d.marker (d.exposes p s.node).toNat (d.exposes p s.node).toNat) (s.expr p)
  source : ∀ p, Yields (·.Takes d.marker 1 1) (s.source p)
  query : ∀ p, Yields (·.Takes d.marker 1 1) (s.query p)

end Dialect

/-! ### Expressions -/

namespace Dialect.Grouped

open Text Wording Yields

variable {d : Dialect} {a : Nat}

theorem inside {w : Wording} {shows : Bool} (takes : w.Takes d.marker shows.toNat shows.toNat) (k : Nat) :
    w.Takes d.marker (k + 1) (k + 1) := by
  cases shows with
  | true => exact takes.deeper k
  | false => exact takes.deeper (k + 1)

section Operands

variable {s : Spelled} (grouped : d.Grouped s) (p : Place)

include grouped

theorem within (k : Nat) : Yields (·.Takes d.marker (k + 1) (k + 1)) (s.expr p) :=
  (grouped.expr p).mono fun _ takes => inside takes k

theorem operand : Yields (·.Takes d.marker (d.exposes p s.node && !d.isOperation s.node).toNat
    (d.exposes p s.node && !d.isOperation s.node).toNat) (d.operand s p) := by
  refine (grouped.expr p).bind fun w takes => ok ?_
  -- Only the kind decides about the parentheses; where there are none, the operand shows what its expression shows.
  cases operation : d.isOperation s.node with
  | true =>
    rw [Bool.not_true, Bool.and_false]
    exact Takes.parenthesized (inside takes 0)
  | false =>
    rw [Bool.not_false, Bool.and_true]
    exact takes

theorem operand_within (k : Nat) : Yields (·.Takes d.marker (k + 1) (k + 1)) (d.operand s p) :=
  (operand grouped p).mono fun _ takes => inside takes k

end Operands

theorem spelledList {separator : String} (joins : Joins separator a a) {spellings : List Spelling} {p : Place}
    (each : ∀ s ∈ spellings, Yields (·.Takes d.marker a a) (s p)) :
    Yields (·.Takes d.marker a a) (spellList separator spellings p) :=
  (mapM each).bind fun _ takes => ok (takes_joined joins takes)

theorem comma (k : Nat) : Joins ", " k k := (joins_text _ _ rfl rfl : Joins ", " 0 0).deeper k

theorem exprList {spelled : List Spelled} (each : ∀ s ∈ spelled, d.Grouped s) (p : Place) (k : Nat) :
    Yields (·.Takes d.marker (k + 1) (k + 1)) (Dialect.exprList spelled p) := by
  refine spelledList (comma _) fun s member => ?_
  obtain ⟨c, inside, rfl⟩ := List.mem_map.mp member
  exact within (each c inside) p k

theorem sign (op : BinaryOp) : Joins (" " ++ op.sign ++ " ") 1 1 := by
  have takes : Text.Takes op.sign 1 1 := by
    cases op <;> exact takes_text _ rfl
  exact takes.spaced

theorem star : Text.Takes Node.wildcard 1 1 := takes_text _ rfl

theorem columnText (groups : d.Groups) (c : Column) :
    Text.Takes (d.columnText c) (c.name == Node.wildcard).toNat (c.name == Node.wildcard).toNat := by
  have name : Text.Takes (if c.name == Node.wildcard then c.name else d.quoteIdent c.name)
      (c.name == Node.wildcard).toNat (c.name == Node.wildcard).toNat := by
    cases wild : c.name == Node.wildcard with
    | true =>
      rw [if_pos rfl, eq_of_beq wild]
      exact star
    | false => exact (groups.ident c.name).takes
  have point : Joins "." 0 0 := joins_text _ _ rfl rfl
  unfold Dialect.columnText
  dsimp only
  split
  · exact name
  · exact (((groups.ident c.label).append point.leads).deeper _).before name

theorem constantExpr (groups : d.Groups) {value : Value} {type : DataType}
    (words : ∀ s ∈ value.bareWords, Text.Takes s 0 0) (p : Place) :
    Yields (·.Takes d.marker (p.inline && value.isSigned).toNat (p.inline && value.isSigned).toNat)
      (d.constantExpr value type p) := by
  unfold Dialect.constantExpr
  split
  next written =>
    have shows : (p.inline && value.isSigned) = value.isSigned := by
      cases inside : p.inline with
      | true => rfl
      | false =>
        rw [inside] at written
        cases value <;> first | rfl | cases written
    rw [shows]
    cases spelled : d.literal value with
    | error e => exact error e
    | ok text => exact ok (takes_ofText (groups.literal words spelled))
  next => exact ok (takes_slotOf groups.marker _ _ _)

section Expressions

variable {s left right : Spelled} {arguments : List Spelled} (p : Place)

theorem nullTest (op : BinaryOp) : Ends (if op = .eq then " IS NULL" else " IS NOT NULL") 1 1 := by
  split
  · exact ends_text _ _ rfl rfl
  · exact ends_text _ _ rfl rfl

theorem binaryExpr (op : BinaryOp) (first : d.Grouped left) (second : d.Grouped right) :
    Yields (·.Takes d.marker 1 1) (d.binaryExpr op left right p) := by
  unfold Dialect.binaryExpr
  split
  next tested found =>
    have one : d.Grouped tested := by
      unfold Dialect.nullTested at found
      split_ifs at found <;> obtain rfl := Option.some.inj found
      · exact first
      · exact second
    exact (operand_within one p 0).bind fun w takes => ok (takes.close (nullTest op))
  next =>
    exact (operand_within first p 0).bind fun w takes => (operand_within second p 0).bind fun v others =>
      ok (takes.between (sign op) others)

theorem unaryExpr (op : UnaryOp) (grouped : d.Grouped s) : Yields (·.Takes d.marker 1 1) (d.unaryExpr op s p) := by
  refine (operand_within grouped p 0).bind fun w takes => ok ?_
  cases op with
  | not =>
    have negation : Leads "NOT " 1 1 := leads_text _ rfl
    exact .lead negation takes
  | negate =>
    have minus : Leads "-" 1 1 := leads_text _ rfl
    exact .lead minus takes
  | isNull => exact takes.close (nullTest .eq)
  | isNotNull => exact takes.close (nullTest .notEq)

theorem membershipExpr (each : ∀ a ∈ arguments, d.Grouped a) :
    Yields (·.Takes d.marker 1 1) (d.membershipExpr arguments p) := by
  rcases arguments with _ | ⟨sought, _ | ⟨item, items⟩⟩
  · exact error _
  · exact error _
  · have opening : Joins " IN (" 1 2 := joins_text _ _ rfl rfl
    obtain ⟨first, rest⟩ := List.forall_mem_cons.mp each
    exact (operand_within first p 0).bind fun w takes => (exprList rest p 1).bind fun v others =>
      ok ((takes.between opening others).close (closingParenthesis.deeper 1).ends)

variable (groups : d.Groups)

include groups

theorem castExpr (type : DataType) (each : ∀ a ∈ arguments, d.Grouped a) :
    Yields (·.Takes d.marker 0 0) (d.castExpr type arguments p) := by
  rcases arguments with _ | ⟨argument, _ | ⟨next, rest⟩⟩
  · exact error _
  · have opening : Leads "CAST(" 0 1 := leads_text _ rfl
    have between : Joins " AS " 1 1 := joins_text _ _ rfl rfl
    refine (within (each argument (by simp)) p 0).bind fun w takes => ?_
    cases named : d.typeName type with
    | error e => exact error e
    | ok name =>
      have target := (between.before (groups.typeName named)).before closingParenthesis.ends
      exact ok ((Takes.lead opening takes).close target)
  · exact error _

omit groups

theorem operatorTail {r : RoutineSpelling} {depth : Nat} (spelling : r.Groups depth) (operator : r.isOperator = true)
    (each : ∀ a ∈ arguments, d.Grouped a) :
    Yields (fun w => w.Opens d.marker ∧ w.Takes d.marker 1 1) (d.operatorTail r arguments p) := by
  have name : Text.Takes r.name 1 1 := by
    have name := spelling.name
    rwa [operator] at name
  have leading : Joins (" " ++ r.name ++ " " ++ r.opening) 1 (depth + 1) := name.spaced.append spelling.opening
  -- On the operands, each of which is closed again behind what is opened in front of it.
  induction arguments with
  | nil => exact ok ⟨opens_nil, takes_nil⟩
  | cons argument rest ih =>
    obtain ⟨first, later⟩ := List.forall_mem_cons.mp each
    refine (operand_within first p depth).bind fun w takes => (ih later).bind fun v ⟨behind, others⟩ => ok ?_
    refine ⟨?_, ((Takes.lead leading.leads takes).close spelling.closing).append behind others⟩
    rw [List.append_assoc, List.append_assoc]
    exact .lead leading.opens leading.full

theorem spelledCall {r : RoutineSpelling} {depth : Nat} (spelling : r.Groups depth)
    (each : ∀ a ∈ arguments, d.Grouped a) :
    Yields (·.Takes d.marker r.isOperator.toNat r.isOperator.toNat) (d.spelledCall r arguments p) := by
  unfold Dialect.spelledCall
  cases operator : r.isOperator with
  | true =>
    rw [if_pos rfl]
    cases arguments with
    | nil => exact error _
    | cons first rest =>
      obtain ⟨here, later⟩ := List.forall_mem_cons.mp each
      exact (operand_within here p 0).bind fun w takes =>
        (operatorTail p spelling operator later).bind fun v ⟨opens, others⟩ => ok (takes.append opens others)
  | false =>
    have name : Text.Takes r.name 0 0 := by
      have name := spelling.name
      rwa [operator] at name
    have leading := (name.joined openingParenthesis).append spelling.opening
    exact (exprList each p depth).bind fun w takes =>
      ok ((Takes.lead leading takes).close (spelling.closing.before closingParenthesis.ends))

include groups

theorem callExpr {routine : Routine} (words : ∀ t ∈ routine.words, Text.Takes t 0 0) (type : DataType)
    (each : ∀ a ∈ arguments, d.Grouped a) (shows : Bool)
    (shown : shows = (routine = .isIn || ((d.routine routine).map (·.isOperator)).getD false)) :
    Yields (·.Takes d.marker shows.toNat shows.toNat) (d.callExpr routine arguments type p) := by
  subst shown
  unfold Dialect.callExpr
  split
  · exact membershipExpr p each
  · exact (castExpr p groups type each).mono fun w takes => takes.deeper _
  · rename_i notIn notCast
    cases found : d.routine routine with
    | none => exact error _
    | some r =>
      obtain ⟨depth, spelling⟩ := groups.routine words found
      rw [decide_eq_false notIn]
      exact spelledCall p spelling each

theorem aggregateExpr (kind : AggregateKind) {argument : Option Spelled} (distinct : Bool)
    (each : ∀ a ∈ argument, d.Grouped a) :
    Yields (·.Takes d.marker 0 0) (d.aggregateExpr kind argument distinct p) := by
  have mark : Leads (if distinct then "DISTINCT " else "") 1 1 := by
    split
    · exact leads_text _ rfl
    · rfl
  have called : Leads (d.aggregate kind ++ "(" ++ if distinct then "DISTINCT " else "") 0 1 :=
    ((groups.aggregate kind).joined openingParenthesis).append mark
  cases argument with
  | none => exact ok ((Takes.lead called (takes_ofText star)).close closingParenthesis.ends)
  | some a =>
    exact (within (each a rfl) p 0).bind fun w takes => ok ((Takes.lead called takes).close closingParenthesis.ends)

omit groups

theorem subqueryExpr (kind : SubqueryKind) {sought : Option Spelled} {query : Spelled}
    (each : ∀ o ∈ sought, d.Grouped o) (rows : d.Grouped query) :
    Yields (·.Takes d.marker (decide (kind = .isIn)).toNat (decide (kind = .isIn)).toNat)
      (d.subqueryExpr kind sought query p) := by
  unfold Dialect.subqueryExpr
  split
  · exact error _
  · cases kind with
    | scalar => exact (rows.query p).bind fun w takes => ok takes.parenthesized
    | «exists» =>
      have word : Leads "EXISTS " 0 0 := leads_text _ rfl
      exact (rows.query p).bind fun w takes => ok (.lead word takes.parenthesized)
    | isIn =>
      cases sought with
      | none => exact error _
      | some operand =>
        have middle : Joins " IN " 1 1 := joins_text _ _ rfl rfl
        exact (operand_within (each operand rfl) p 0).bind fun w takes => (rows.query p).bind fun v others =>
          ok (takes.between middle (others.deeper 1).parenthesized)

theorem orderList {items : List (OrderItem Spelled)} (each : ∀ o ∈ items, d.Grouped o.expr) (k : Nat) :
    Yields (·.Takes d.marker (k + 1) (k + 1)) (Dialect.orderList items p) := by
  refine spelledList (comma _) fun s member => ?_
  obtain ⟨item, inside, rfl⟩ := List.mem_map.mp member
  refine (within (each item inside) p k).bind fun w takes => ok ?_
  have descending : Ends " DESC" 0 0 := ends_text _ _ rfl rfl
  cases item.direction with
  | ascending => exact takes
  | descending => exact takes.close (descending.deeper _)

theorem overExpr {source : Spelled} {orderBy : List (OrderItem Spelled)} (first : d.Grouped source)
    (each : ∀ o ∈ orderBy, d.Grouped o.expr) :
    Yields (·.Takes d.marker (d.exposes p source.node).toNat (d.exposes p source.node).toNat)
      (Dialect.overExpr source orderBy p) := by
  refine (first.expr p).bind fun w takes => ?_
  split
  · have alone : Joins " OVER ()" 0 0 := joins_text _ _ rfl rfl
    exact ok (takes.close (alone.deeper _).ends)
  · have opening : Joins " OVER (ORDER BY " 0 1 := joins_text _ _ rfl rfl
    exact (orderList p each _).bind fun v others =>
      ok ((takes.between (opening.deeper _) others).close (closingParenthesis.deeper _).ends)

theorem branchText {b : Branch Spelled} (test : d.Grouped b.condition) (result : d.Grouped b.result) :
    Yields (fun w => w.Opens d.marker ∧ w.Takes d.marker 1 1) (Dialect.branchText b p) := by
  have opening : Joins " WHEN " 1 1 := joins_text _ _ rfl rfl
  have middle : Joins " THEN " 1 1 := joins_text _ _ rfl rfl
  refine (within test p 0).bind fun w takes => (within result p 0).bind fun v others => ok ⟨?_, ?_⟩
  · rw [List.append_assoc, List.append_assoc]
    exact .lead opening.opens opening.full
  · exact (Takes.lead opening.leads takes).between middle others

theorem conditionalExpr {branches : List (Branch Spelled)} {otherwise : Option Spelled}
    (each : ∀ b ∈ branches, d.Grouped b.condition ∧ d.Grouped b.result) (last : ∀ o ∈ otherwise, d.Grouped o) :
    Yields (·.Takes d.marker 0 0) (Dialect.conditionalExpr branches otherwise p) := by
  have opening : Text.Takes "CASE" 0 1 := takes_text _ rfl
  have closing : Ends " END" 1 0 := ends_text _ _ rfl rfl
  have tests : Yields (fun w => w.Opens d.marker ∧ w.Takes d.marker 1 1)
      (spellList "" (branches.map Dialect.branchText) p) := by
    refine (mapM fun s member => ?_).bind fun ws all => ok (takes_joined_empty all)
    obtain ⟨b, inside, rfl⟩ := List.mem_map.mp member
    exact branchText p (each b inside).1 (each b inside).2
  refine tests.bind fun w ⟨opens, takes⟩ => ?_
  have begun : (ofText "CASE" ++ w).Takes d.marker 0 1 := (takes_ofText opening).append opens takes
  cases otherwise with
  | none => exact ok ((begun.append opens_nil takes_nil).close closing)
  | some o =>
    have words : Joins " ELSE " 1 1 := joins_text _ _ rfl rfl
    exact (within (last o rfl) p 0).bind fun v others =>
      ok ((begun.append (.lead words.opens words.full) (.lead words.leads others)).close closing)

theorem groupAggregateExpr (label : String) {inGroup asQuery : Spelled} (first : d.Grouped inGroup)
    (second : d.Grouped asQuery) (shows : Bool)
    (shown : shows = if p.scope = some label then d.exposes p inGroup.node else d.exposes p asQuery.node) :
    Yields (·.Takes d.marker shows.toNat shows.toNat) (Dialect.groupAggregateExpr label inGroup asQuery p) := by
  subst shown
  unfold Dialect.groupAggregateExpr
  split
  · exact first.expr p
  · exact second.expr p

end Expressions

/-! ### Queries and sources -/

section Queries

variable {q : Select Spelled} (p : Place)

theorem clauses {list : List (Option Spelling)} {p : Place}
    (each : ∀ o ∈ list, ∀ s ∈ o, Yields (·.Takes d.marker 1 1) (s p)) :
    Yields (·.Takes d.marker 1 1) (Dialect.clauses list p) := by
  have blank : Joins " " 1 1 := joins_text _ _ rfl rfl
  refine spelledList blank fun s member => ?_
  obtain ⟨o, inside, rfl⟩ := List.mem_filterMap.mp member
  exact each _ inside s rfl

theorem clause {words : String} (leads : Leads words 1 1) {s : Spelling} {p : Place}
    (takes : Yields (·.Takes d.marker 1 1) (s p)) : Yields (·.Takes d.marker 1 1) (Dialect.clause words s p) :=
  takes.bind fun _ inner => ok (.lead leads inner)

theorem fixed {words : String} (takes : Text.Takes words 1 1) (p : Place) :
    Yields (·.Takes d.marker 1 1) (Dialect.fixed words p) := ok (takes_ofText takes)

theorem optional {o : Option Spelled} {f : Spelled → Spelling} {p : Place}
    (each : ∀ c ∈ o, Yields (·.Takes d.marker 1 1) (f c p)) : ∀ s ∈ o.map f, Yields (·.Takes d.marker 1 1) (s p) := by
  intro s found
  obtain ⟨c, inside, rfl⟩ := Option.map_eq_some_iff.mp found
  exact each c inside

theorem renamed (groups : d.Groups) (name : String) : Ends (" AS " ++ d.quoteIdent name) 1 1 := by
  have words : Joins " AS " 1 1 := joins_text _ _ rfl rfl
  exact words.before ((groups.ident name).deeper 1).takes

theorem projected (groups : d.Groups) {b : Binding Spelled} (grouped : d.Grouped b.expr) :
    Yields (·.Takes d.marker 1 1) (d.projected b p) := by
  unfold Dialect.projected
  split
  · exact ok (takes_ofText star)
  · exact (within grouped p 0).bind fun w takes => ok (takes_ite takes (takes.close (renamed groups b.name)))

theorem topClause (limit : ∀ n ∈ q.take, d.Grouped n) :
    Yields (fun w => ∀ v : Wording, v.Takes d.marker 1 1 → (w ++ v).Takes d.marker 1 1) (d.topClause q p) := by
  unfold Dialect.topClause
  split
  next take limited _ =>
    split
    · exact ok fun v takes => takes
    · have opening : Leads "TOP (" 1 2 := leads_text _ rfl
      have closing : Joins ") " 2 1 := joins_text _ _ rfl rfl
      refine (within (limit take limited) p 1).bind fun w takes => ok ?_
      exact fun v others => (Takes.lead opening takes).between closing others
  next => exact ok fun v takes => takes

theorem selectClause (groups : d.Groups) (columns : ∀ b ∈ q.columns, d.Grouped b.expr)
    (limit : ∀ n ∈ q.take, d.Grouped n) : Yields (·.Takes d.marker 1 1) (d.selectClause q p) := by
  have words : Leads (if q.distinct then "SELECT DISTINCT " else "SELECT ") 1 1 := by
    split
    · exact leads_text _ rfl
    · exact leads_text _ rfl
  refine (topClause p limit).bind fun top before => ?_
  have whole {v : Wording} (takes : v.Takes d.marker 1 1) :
      (ofText (if q.distinct then "SELECT DISTINCT " else "SELECT ") ++ top ++ v).Takes d.marker 1 1 := by
    rw [List.append_assoc]
    exact .lead words (before v takes)
  dsimp only
  split
  · exact ok (whole (takes_ofText star))
  · refine Yields.bind (P := fun v : Wording => v.Takes d.marker 1 1) ?_ fun v takes => ok (whole takes)
    refine spelledList (comma 1) fun s member => ?_
    obtain ⟨b, inside, rfl⟩ := List.mem_map.mp member
    exact projected p groups (columns b inside)

theorem orderClause (orderBy : ∀ o ∈ q.orderBy, d.Grouped o.expr) :
    ∀ s ∈ d.orderClause q, Yields (·.Takes d.marker 1 1) (s p) := by
  intro s found
  unfold Dialect.orderClause at found
  split at found
  · obtain rfl := Option.some.inj found
    exact clause (leads_text _ rfl) (orderList p orderBy 0)
  · split at found
    · obtain rfl := Option.some.inj found
      exact fixed (takes_text _ rfl) p
    · cases found

theorem rowCount {before behind : String} (leads : Leads before 1 1) (ends : Ends behind 1 1) {n : Spelled}
    (grouped : d.Grouped n) :
    Yields (·.Takes d.marker 1 1) (do return .ofText before ++ (← n.expr p) ++ .ofText behind) :=
  (within grouped p 0).bind fun _ takes => ok ((Takes.lead leads takes).close ends)

theorem limitClauses (groups : d.Groups) (skip : ∀ n ∈ q.skip, d.Grouped n) (take : ∀ n ∈ q.take, d.Grouped n) :
    ∀ o ∈ d.limitClauses q, ∀ s ∈ o, Yields (·.Takes d.marker 1 1) (s p) := by
  have limit : Leads "LIMIT " 1 1 := leads_text _ rfl
  have offset : Leads "OFFSET " 1 1 := leads_text _ rfl
  have rows : Ends " ROWS" 1 1 := ends_text _ _ rfl rfl
  have fetch : Leads "FETCH NEXT " 1 1 := leads_text _ rfl
  have only : Ends " ROWS ONLY" 1 1 := ends_text _ _ rfl rfl
  unfold Dialect.limitClauses
  split
  next =>
    refine List.forall_mem_cons.mpr ⟨?_, List.forall_mem_singleton.mpr ?_⟩
    · split
      next n taken =>
        rintro s ⟨⟩
        exact clause limit (within (take n taken) p 0)
      next words unlimited =>
        rintro s ⟨⟩
        exact fixed (limit.before (groups.unboundedLimit unlimited)) p
      next => nofun
    · exact optional fun n skipped => clause offset (within (skip n skipped) p 0)
  all_goals
    split
    next => nofun
    next n skipped =>
      refine List.forall_mem_cons.mpr ⟨?_, List.forall_mem_singleton.mpr ?_⟩
      · rintro s ⟨⟩
        exact rowCount p offset rows (skip n skipped)
      · exact optional fun m taken => rowCount p fetch only (take m taken)

theorem selectText (groups : d.Groups) (each : ∀ c ∈ q.children, d.Grouped c) :
    Yields (·.Takes d.marker 1 1) (d.selectText q p) := by
  simp only [Select.children, List.forall_mem_append, List.forall_mem_map, Option.mem_toList] at each
  obtain ⟨⟨⟨⟨⟨⟨columns, source⟩, filter⟩, groupBy⟩, orderBy⟩, skip⟩, take⟩ := each
  have reads : Leads "FROM " 1 1 := leads_text _ rfl
  have tests : Leads "WHERE " 1 1 := leads_text _ rfl
  have groupKeys : Leads "GROUP BY " 1 1 := leads_text _ rfl
  refine clauses (List.forall_mem_append.mpr ⟨List.forall_mem_append.mpr ⟨?_, limitClauses _ groups skip take⟩, ?_⟩)
  · refine List.forall_mem_cons.mpr ⟨?_, List.forall_mem_cons.mpr ⟨?_, List.forall_mem_cons.mpr ⟨?_,
      List.forall_mem_cons.mpr ⟨?_, List.forall_mem_singleton.mpr (orderClause _ orderBy)⟩⟩⟩⟩
    · rintro s ⟨⟩
      exact selectClause _ groups columns take
    · exact optional fun c found => clause reads ((source c found).source _)
    · exact optional fun c found => clause tests (within (filter c found) _ 0)
    · intro s found
      split at found
      · cases found
      · obtain rfl := Option.some.inj found
        exact clause groupKeys (exprList groupBy _ 0)
  · refine List.forall_mem_singleton.mpr fun s found => ?_
    split at found
    · obtain ⟨words, locks, rfl⟩ := Option.map_eq_some_iff.mp found
      exact fixed (groups.forUpdate locks) _
    · cases found

theorem joinText (groups : d.Groups) (kind : JoinKind) {left right : Spelled} {condition : Option Spelled}
    (first : d.Grouped left) (second : d.Grouped right) (each : ∀ c ∈ condition, d.Grouped c) :
    Yields (·.Takes d.marker 1 1) (d.joinText kind left right condition p) := by
  unfold Dialect.joinText
  cases keyed : d.joinKeyword kind with
  | none => exact error _
  | some keyword =>
    refine (first.source p).bind fun w takes => (second.source p).bind fun v others => ?_
    have words : Joins (" " ++ keyword ++ " ") 1 1 := (groups.joinKeyword keyed).spaced
    have on : Joins " ON " 1 1 := joins_text _ _ rfl rfl
    have anyway : Ends " ON TRUE" 1 1 := ends_text _ _ rfl rfl
    have whole : (w ++ ofText (" " ++ keyword ++ " ") ++
        if right.node.kind = .join then v.parenthesized else v).Takes d.marker 1 1 :=
      takes.between words (takes_ite (others.deeper 1).parenthesized others)
    cases condition with
    | some c =>
      exact (within (each c rfl) p 0).bind fun u tested =>
        ok (whole.append (.lead on.opens on.full) (.lead on.leads tested))
    | none =>
      dsimp only
      split
      · exact ok (whole.close anyway)
      · exact ok (whole.append opens_nil takes_nil)

end Queries

/-! ### Layers -/

section Layers

variable {t : Shape Spelled} (groups : d.Groups) (words : ∀ s ∈ t.bareWords, Text.Takes s 0 0)
  (each : ∀ c ∈ t.children, d.Grouped c) (p : Place)

include groups each

theorem queryText : Yields (·.Takes d.marker 1 1) (d.queryText t p) := by
  cases t with
  | select q => exact selectText p groups each
  | _ => exact error _

theorem sourceText : Yields (·.Takes d.marker 1 1) (d.sourceText t p) := by
  cases t with
  | table name label type =>
    have between : Joins " AS " 0 0 := joins_text _ _ rfl rfl
    have named := ((groups.ident name).append between.leads).append (groups.ident label)
    exact ok (takes_ofText (named.deeper 1).takes)
  | select q =>
    exact (selectText p groups each).bind fun w takes => ok ((takes.deeper 1).parenthesized.close (renamed groups _))
  | join kind left right condition =>
    exact joinText p groups kind (each left (by simp [Shape.children])) (each right (by simp [Shape.children]))
      fun c found => each c (by simp_all [Shape.children])
  | _ => exact error _

include words

theorem exprText (shows : Bool) (shown : shows = d.exposesLayer p (t.map fun c => d.exposes p c.node)) :
    Yields (·.Takes d.marker shows.toNat shows.toNat) (d.exprText t p) := by
  subst shown
  cases t with
  | column c => exact ok (takes_ofText (columnText groups c))
  | constant value type => exact constantExpr groups words p
  | placeholder index type => exact ok (takes_slotOf groups.marker _ _ _)
  | parameter name type => exact ok (takes_slotOf groups.marker _ _ _)
  | binary op left right type =>
    exact binaryExpr p op (each left (by simp [Shape.children])) (each right (by simp [Shape.children]))
  | unary op operand type => exact unaryExpr p op (each operand (by simp [Shape.children]))
  | call routine arguments type => exact callExpr p groups words type each _ rfl
  | aggregate kind argument distinct type =>
    exact aggregateExpr p groups kind distinct fun c found => each c (by simpa [Shape.children] using found)
  | groupAggregate label inGroup asQuery type =>
    exact groupAggregateExpr p label (each inGroup (by simp [Shape.children])) (each asQuery (by simp [Shape.children]))
      _ rfl
  | subquery kind operand query type =>
    exact subqueryExpr p kind (fun c found => each c (by simp_all [Shape.children]))
      (each query (by simp [Shape.children]))
  | select q => exact (selectText p groups each).bind fun w takes => ok takes.parenthesized
  | window source orderBy =>
    exact overExpr p (each source (by simp [Shape.children])) fun o found =>
      each o.expr (List.mem_cons_of_mem _ (List.mem_map_of_mem found))
  | conditional branches otherwise type =>
    refine conditionalExpr p (fun b found => ?_) fun c found => each c (by simp_all [Shape.children])
    have both : ∀ c ∈ b.children, d.Grouped c := fun c inside =>
      each c (List.mem_append_left _ (List.mem_flatMap.mpr ⟨b, found, inside⟩))
    exact ⟨both _ (by simp [Branch.children]), both _ (by simp [Branch.children])⟩
  | _ => exact error _

end Layers

theorem layer (groups : d.Groups) {t : Shape Spelled} (words : ∀ s ∈ t.bareWords, Text.Takes s 0 0)
    (each : ∀ c ∈ t.children, d.Grouped c) : d.Grouped (d.spellLayer t) where
  expr p := exprText groups words each p _ (by
    show d.exposes p (.mk (t.map (·.node))) = _
    rw [Dialect.exposes_mk, Shape.map_map])
  source := sourceText groups each
  query := queryText groups each

end Dialect.Grouped

/-- Every text of the tree that is written as it is holds no operator and closes what it opens. -/
def Node.isClosed (n : Node) : Prop := ∀ m ∈ n.subtrees, ∀ s ∈ m.shape.bareWords, Text.Takes s 0 0

instance (n : Node) : Decidable n.isClosed := List.decidableBAll _ n.subtrees

theorem Node.isClosed_mk {s : Shape Node} :
    (Node.mk s).isClosed ↔ (∀ t ∈ s.bareWords, Text.Takes t 0 0) ∧ ∀ c ∈ s.children, c.isClosed := by
  simp only [isClosed, subtrees_mk, List.forall_mem_cons, List.forall_mem_flatMap]
  rfl

namespace Dialect

variable {d : Dialect} {n : Node}

theorem grouped (groups : d.Groups) (closed : n.isClosed) : d.Grouped (d.spell n) := by
  -- On the tree: the texts of a layer are read from those of its children, inside its own parentheses or beside them.
  induction n using Node.inductNode with
  | step s ih =>
    obtain ⟨words, parts⟩ := Node.isClosed_mk.mp closed
    rw [spell_mk]
    refine Grouped.layer groups (by rwa [Shape.bareWords_map]) fun c member => ?_
    rw [Shape.children_map] at member
    obtain ⟨m, inside, rfl⟩ := List.mem_map.mp member
    exact ih m inside (parts m inside)

/-- An operand that shows no operators, or gets parentheses for its kind, closes what it opens and shows none. -/
theorem operand_takes (groups : d.Groups) (closed : n.isClosed) {p : Place}
    (hidden : d.exposes p n = true → d.isOperation n = true) :
    Yields (fun w : Wording => w.Takes d.marker 0 0) (d.operand (d.spell n) p) := by
  have takes := (grouped groups closed).operand p
  have shows : (d.exposes p (d.spell n).node && !d.isOperation (d.spell n).node) = false := by
    rw [spell_node]
    cases exposed : d.exposes p n with
    | false => rfl
    | true => rw [hidden exposed]; rfl
  rw [shows] at takes
  exact takes

/-- What is sought in a query is whole, and so is the query; the test that is written between them is not. -/
theorem operators_membership (groups : d.Groups) {sought query : Node} {type : DataType}
    (closed : (Node.subquery .isIn (some sought) query type).isClosed) {p : Place}
    (hidden : d.exposes p sought = true → d.isOperation sought = true) :
    Yields (fun w : Wording => ∀ next, operators (w.render d.marker next) = ["IN"])
      (d.operand (d.spell (.subquery .isIn (some sought) query type)) p) := by
  have parts := (Node.isClosed_mk.mp closed).2
  have first := operand_takes groups (parts sought (by simp [Shape.children])) hidden
  have second := (grouped groups (parts query (by simp [Shape.children]))).query p
  have middle : Text.Joins " IN " 1 1 := Text.joins_text _ _ rfl rfl
  have bare : d.operand (d.spell (.subquery .isIn (some sought) query type)) p =
      d.subqueryExpr .isIn (some (d.spell sought)) (d.spell query) p := by
    rw [spell_mk]
    exact bind_pure _
  rw [bare, subqueryExpr]
  split
  · exact .error _
  · refine first.bind fun u takes => second.bind fun v rows => .ok fun next => ?_
    rw [Wording.render_append, Wording.render_append, Wording.render_ofText]
    exact Text.operators_between [['I', 'N']] (takes _) middle.opens middle.full rfl (rows.parenthesized _)

end Dialect

end QueryTree
