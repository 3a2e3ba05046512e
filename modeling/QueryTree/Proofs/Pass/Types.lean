import QueryTree.Proofs.Node.Types
import QueryTree.Proofs.Pass.LabelCounts

/-! Typed trees stay typed.

What a pass makes of a node is of the type the node was of, by the types of its operands. A value that is folded is of
the type of the expression, an argument in the place of its call of the type of the call, and what a column stands for
of the type of the column.
-/

set_option autoImplicit false

namespace QueryTree

open Node

variable {Γ : Typing}

/-- Where a node stands: anywhere, where a value is asked for, or as what a select of the label exposes. -/
inductive Spot where
  | any
  | value (type : DataType)
  | exposed (label : String)

def Node.Suits (Γ : Typing) : Spot → Node → Prop
  | .any, n => n.Typed Γ
  | .value type, n => n.Typed Γ ∧ n.IsOf type
  | .exposed label, n => n.Typed Γ ∧ ∀ l ∈ n.sourceLabel?, Γ label = Γ l

namespace Node

variable {r : Spot} {a b n : Node} {q : Select Node}

theorem Suits.typed (suits : n.Suits Γ r) : n.Typed Γ := by
  cases r with
  | any => exact suits
  | value | exposed => exact suits.1

theorem takes_iff : TakesPlace (Suits Γ) a b ↔ (a.Typed Γ → b.Typed Γ ∧ Serves Γ a b) := by
  constructor
  · intro takes typed
    exact ⟨takes .any typed, fun type isOf => (takes (.value type) ⟨typed, isOf⟩).2,
      fun label exposed => (takes (.exposed label) ⟨typed, exposed⟩).2⟩
  · intro replaced r suits
    obtain ⟨typed, serves⟩ := replaced suits.typed
    cases r with
    | any => exact typed
    | value type => exact ⟨typed, serves.types type suits.2⟩
    | exposed label => exact ⟨typed, serves.labels label suits.2⟩

theorem takes_value (replaced : a.Typed Γ → b.Typed Γ ∧ b.IsOf a.dataType.underlying) : TakesPlace (Suits Γ) a b := by
  refine takes_iff.mpr fun typed => ?_
  obtain ⟨typed, isOf⟩ := replaced typed
  refine ⟨typed, fun type same => same.declared ▸ isOf, fun label _ l labelled => ?_⟩
  rw [isOf.unlabelled] at labelled
  cases labelled

theorem takes_select {p : Select Node} (label : p.label = q.label)
    (replaced : (Node.select q).Typed Γ → (Node.select p).Typed Γ) : TakesPlace (Suits Γ) (.select q) (.select p) := by
  refine takes_iff.mpr fun typed => ⟨replaced typed, fun type isOf => absurd isOf.single (by simp [isSingle]),
    fun label' exposed l labelled => exposed l ?_⟩
  cases labelled
  exact congrArg some label.symm

/-! ### Mappings -/

theorem faithful_ofTyped {m : Mapping} (typed : (Node.select q).Typed Γ) (mapped : Mapping.ofSelect? q = some m) :
    m.Faithful (Suits Γ) := by
  obtain ⟨own, below⟩ := typed_select.mp typed
  obtain ⟨sameLabel, declared, passed⟩ := Mapping.ofSelect_some mapped
  refine .ofNames (fun b member c same sameName => takes_value fun reference => ?_) fun owner passes c same =>
    takes_value fun reference => ?_
  · obtain ⟨column, named⟩ := declared b member
    have type : c.type.underlying = Γ c.label c.name := (typed_mk.mp reference).1
    refine ⟨below b.expr (Select.column_child column), ?_⟩
    show b.expr.IsOf c.type.underlying
    rw [type, same, sameLabel, sameName]
    exact own.columns b column named
  · have exposes := (own.exposes (Mapping.ofSelect_exposes mapped owner passes)).2 owner (passed owner passes)
    have type : c.type.underlying = Γ c.label c.name := (typed_mk.mp reference).1
    refine ⟨typed_mk.mpr ⟨?_, fun _ member => absurd member List.not_mem_nil⟩, rfl, rfl, fun _ member => nomatch member⟩
    show c.type.underlying = Γ owner c.name
    rw [type, same, sameLabel, exposes]

/-! ### Selects -/

theorem typed_columns {columns : List (Binding Node)} (sublist : columns.Sublist q.columns)
    (some : columns = [] → q.columns = []) (typed : (Node.select q).Typed Γ) :
    (Node.select { q with columns }).Typed Γ := by
  obtain ⟨own, below⟩ := typed_select.mp typed
  have exposes : ({ q with columns } : Select Node).projectsStar = true → q.projectsStar = true := by
    intro exposes
    rcases Bool.or_eq_true_iff.mp exposes with none | wild
    · exact Bool.or_eq_true_iff.mpr (.inl (List.isEmpty_iff.mpr (some (List.isEmpty_iff.mp none))))
    · obtain ⟨b, column, wild⟩ := List.any_eq_true.mp wild
      exact Bool.or_eq_true_iff.mpr (.inr (List.any_eq_true.mpr ⟨b, sublist.subset column, wild⟩))
  refine typed_select.mpr ⟨⟨own.names.sublist (sublist.map _), fun star => ?_, fun b column => ?_, own.filter⟩, ?_⟩
  · obtain ⟨wild, source⟩ := own.exposes (exposes star)
    exact ⟨fun b column => wild b (sublist.subset column), source⟩
  · exact own.columns b (sublist.subset column)
  · intro c child
    rcases Select.mem_children.mp child with ⟨b, column, rfl⟩ | later
    · exact below b.expr (Select.column_child (sublist.subset column))
    · exact below c (Select.mem_children.mpr (.inr later))

theorem typed_both (first : a.Typed Γ ∧ a.IsOf .boolean) (second : b.Typed Γ ∧ b.IsOf .boolean) :
    (Node.both a b).Typed Γ ∧ (Node.both a b).IsOf .boolean :=
  ⟨typed_mk.mpr ⟨⟨rfl, fun _ => ⟨first.2, second.2⟩⟩, by simpa [Shape.children] using ⟨first.1, second.1⟩⟩, rfl, rfl,
    fun _ member => nomatch member⟩

theorem typed_merge {inner : Select Node} (reads : q.source = some (.select inner))
    (mergeable : Pass.canMerge q inner = true) (typed : (Node.select q).Typed Γ) :
    (Node.select (Pass.merge q inner)).Typed Γ := by
  obtain ⟨own, below⟩ := typed_select.mp typed
  obtain ⟨columns, source, filter, groups, order, skip, take⟩ := Select.forall_children.mp below
  obtain ⟨innerOwn, innerBelow⟩ := typed_select.mp (source (.select inner) reads)
  obtain ⟨-, innerSource, innerFilter, -, innerOrder, -, -⟩ := Select.forall_children.mp innerBelow
  have filters := Pass.mergeFilters_holds (P := fun f => f.Typed Γ ∧ f.IsOf .boolean) typed_both
    (fun f member => ⟨innerFilter f member, innerOwn.filter f member⟩)
    (fun f member => ⟨filter f member, own.filter f member⟩)
  refine typed_select.mpr ⟨⟨own.names, fun star => ?_, own.columns, fun f member => (filters f member).2⟩, ?_⟩
  · have star : q.projectsStar = true := star
    have exposed : inner.projectsStar = true := by
      simpa [star] using (Bool.and_eq_true_iff.mp mergeable).2
    obtain ⟨wild, outer⟩ := own.exposes star
    -- Only a select that exposes its source itself is taken in by one that does.
    refine ⟨wild, fun label labelled => ?_⟩
    exact (outer inner.label (by rw [reads]; rfl)).trans ((innerOwn.exposes exposed).2 label labelled)
  · have filter := fun f member => (filters f member).1
    refine Select.forall_children.mpr ⟨columns, innerSource, filter, groups, ?_, skip, take⟩
    exact fun o member => (Placement.mergeOrder_mem member).elim (order o) fun inherited => innerOrder o inherited.1

theorem Typed.noGroups (typed : n.Typed Γ) {label : String} {e : Node} : (label, e) ∉ n.groupForms := by
  intro form
  obtain ⟨asQuery, type, member⟩ := Placement.groupForms_mem form
  exact typed _ member

theorem suits_frame : Frame (Suits Γ) (fun r => ∀ type, r ≠ .value type) (· = .any) fun _ _ => False where
  child suits child := ⟨.any, suits.typed.child child⟩
  layer {s} each := by
    refine takes_iff.mpr fun typed => ?_
    obtain ⟨own, below⟩ := typed_mk.mp typed
    rw [Shape.children_map, List.forall_mem_map] at below
    have replaced := fun p child => takes_iff.mp (each p child) (below p child)
    have serve := fun p child => (replaced p child).2
    refine ⟨typed_mk.mpr ⟨Shape.typed_map serve own, ?_⟩, fun type => Shape.isOf_map serve own,
      fun label exposed l labelled => exposed l ?_⟩
    · rw [Shape.children_map, List.forall_mem_map]
      exact fun p child => (replaced p child).1
    · rwa [sourceLabel_map Prod.fst Prod.snd s]
  joined := by
    rintro r rfl type ⟨⟩
  sides {r kind left right condition} sourced suits := by
    have below := (typed_mk.mp suits.typed).2
    simp only [Shape.children, List.forall_mem_cons] at below
    obtain ⟨onLeft, onRight, test⟩ := below
    refine ⟨.any, .any, ⟨rfl, onLeft⟩, ⟨rfl, onRight⟩, fun left' right' first second => ?_⟩
    have typed : (Node.join kind left' right' condition).Typed Γ :=
      typed_mk.mpr ⟨trivial, by simpa [Shape.children] using ⟨first, second, by simpa using test⟩⟩
    cases r with
    | any => exact typed
    | value type => exact absurd rfl (sourced type)
    | exposed label => exact ⟨typed, fun l labelled => nomatch labelled⟩
  reads {r q source} suits reads := by
    obtain ⟨own, below⟩ := typed_select.mp suits.typed
    have rebuilt {source' : Node} (typed : source'.Typed Γ)
        (exposed : q.projectsStar = true → ∀ l ∈ source'.sourceLabel?, Γ q.label = Γ l) :
        (Node.select { q with source := some source' }).Typed Γ := by
      have exposes (star : q.projectsStar = true) := And.intro (own.exposes star).1 (exposed star)
      refine typed_select.mpr ⟨⟨own.names, exposes, own.columns, own.filter⟩, fun c child => ?_⟩
      rcases Select.mem_children.mp child with column | inside | clause
      · exact below c (Select.mem_children.mpr (.inl column))
      · exact Option.some.inj inside ▸ typed
      · exact below c (Select.clause_child clause)
    have again {source' : Node} (typed : (Node.select { q with source := some source' }).Typed Γ) :
        Suits Γ r (.select { q with source := some source' }) :=
      takes_select (q := q) (p := { q with source := some source' }) rfl (fun _ => typed) r suits
    -- What is asked of the source is whether the select exposes it.
    cases star : q.projectsStar with
    | false =>
      exact ⟨.any, ⟨by rintro type ⟨⟩, below source (Select.source_child reads)⟩,
        fun source' suits => again (rebuilt suits (by simp [star]))⟩
    | true =>
      refine ⟨.exposed q.label, ⟨by rintro type ⟨⟩, below source (Select.source_child reads), ?_⟩,
        fun source' suits => again (rebuilt suits.1 fun _ => suits.2)⟩
      intro l labelled
      exact (own.exposes star).2 l (by rw [reads]; exact labelled)
  prune sublist some := takes_select rfl (typed_columns sublist some)
  measure name := takes_iff.mpr fun typed => (typed_mk.mp typed).1.elim
  declares suits _ _ inside form := (suits.typed.child (Select.lifted_child inside)).noGroups form
  more {q extra} none := by
    obtain rfl : extra = [] := List.eq_nil_iff_forall_not_mem.mpr fun b member => none b member
    rw [List.append_nil]
    exact .refl _
  merges {r q inner m} reads mapped mergeable suits := by
    have inside : (Node.select inner).Typed Γ := suits.typed.child (Select.source_child reads)
    have merged : TakesPlace (Suits Γ) (.select q) (.select (Pass.merge q inner)) :=
      takes_select rfl (typed_merge reads mergeable)
    exact ⟨merged r suits, faithful_ofTyped inside mapped⟩
  skips {r outerIsStar s source m} side reads mapped _ suits := by
    subst side
    exact ⟨Typed.child suits (Select.source_child reads), faithful_ofTyped suits mapped⟩
  keys q := by
    refine takes_select rfl fun typed => ?_
    obtain ⟨own, below⟩ := typed_select.mp typed
    obtain ⟨columns, source, filter, groups, rest⟩ := Select.forall_children.mp below
    refine typed_select.mpr ⟨⟨own.names, own.exposes, own.columns, own.filter⟩,
      Select.forall_children.mpr ⟨columns, source, filter, fun g member => ?_, rest⟩⟩
    obtain ⟨key, inside, part⟩ := List.mem_flatMap.mp member
    exact (groups key inside).subtree (Pass.keyParts_subtrees g part)

end Node

/-! ### Rules -/

namespace Pass

variable {n : Node}

theorem isOf_call (routine : Routine) (arguments : List Node) (type : DataType) :
    (Node.call routine arguments type).IsOf type.underlying := ⟨rfl, rfl, fun _ member => nomatch member⟩

theorem isOf_binary (op : BinaryOp) (left right : Node) (type : DataType) :
    (Node.binary op left right type).IsOf type.underlying := ⟨rfl, rfl, fun _ member => nomatch member⟩

theorem spliced_some {a : Node} (typed : a.Typed Γ) : spliced .concat a ≠ [] := by
  unfold spliced
  split
  · split
    next same => subst same; exact (typed_mk.mp typed).1.2.1
    next => exact List.cons_ne_nil _ _
  · exact List.cons_ne_nil _ _

theorem spliced_text {a only : Node} (typed : a.Typed Γ) (text : a.IsOf .text) (alone : spliced .concat a = [only]) :
    only.IsOf .text := by
  unfold spliced at alone
  split at alone
  · split at alone
    next same => subst same; exact (typed_mk.mp typed).1.2.2 only alone
    next => exact List.cons.inj alone |>.1 ▸ text
  · exact List.cons.inj alone |>.1 ▸ text

/-- Splicing leaves no CONCAT without arguments, and none of one argument that had more. -/
theorem concat_spliced {arguments : List Node} {type : DataType} (own : Routine.concat.Typed arguments type)
    (below : ∀ a ∈ arguments, a.Typed Γ) : Routine.concat.Typed (arguments.flatMap (spliced .concat)) type := by
  obtain ⟨text, some, single⟩ := own
  cases arguments with
  | nil => exact absurd rfl some
  | cons a rest =>
    have first := spliced_some (below a List.mem_cons_self)
    refine ⟨text, by simp [first], fun only alone => ?_⟩
    rw [List.flatMap_cons, List.append_eq_singleton_iff] at alone
    rcases alone with ⟨none, -⟩ | ⟨alone, none⟩
    · exact absurd none first
    · cases rest with
      | nil => exact spliced_text (below a List.mem_cons_self) (single a rfl) alone
      | cons b later =>
        have second := spliced_some (below b (List.mem_cons_of_mem _ List.mem_cons_self))
        exact absurd (List.append_eq_nil_iff.mp (List.flatMap_cons ▸ none)).1 second

theorem coalesce_spliced {arguments : List Node} {type : DataType} (own : Routine.coalesce.Typed arguments type)
    (below : ∀ a ∈ arguments, a.Typed Γ) : Routine.coalesce.Typed (arguments.flatMap (spliced .coalesce)) type := by
  intro c member
  obtain ⟨a, inside, part⟩ := List.mem_flatMap.mp member
  rcases spliced_mem part with rfl | ⟨inner, innerType, rfl, listed⟩
  · exact own c inside
  · have same : innerType.underlying = type.underlying := (own _ inside).declared
    exact same ▸ (typed_mk.mp (below _ inside)).1 c listed

theorem flattenCall_typed (n : Node) : TakesPlace (Suits Γ) n (flattenCall n) := by
  unfold flattenCall
  split
  · rename_i routine arguments type
    split
    · rename_i associative
      refine takes_value fun typed => ⟨?_, isOf_call _ _ _⟩
      obtain ⟨own, below⟩ := typed_mk.mp typed
      refine typed_mk.mpr ⟨?_, fun c member => ?_⟩
      · cases routine with
        | concat => exact concat_spliced own below
        | coalesce => exact coalesce_spliced own below
        | _ => cases associative
      · obtain ⟨a, inside, part⟩ := List.mem_flatMap.mp member
        rcases spliced_mem part with rfl | ⟨inner, innerType, rfl, listed⟩
        · exact below c inside
        · exact (below _ inside).child listed
    · exact .refl _
  · exact .refl _

theorem isOf_bool (b : Bool) : (Node.literal (.bool b)).IsOf .boolean := isOf_literal (.bool b)

theorem absorb_typed {absorbing b : Bool} {other : Node} (typed : other.Typed Γ) (test : other.IsOf .boolean) :
    (absorb absorbing b other).Typed Γ ∧ (absorb absorbing b other).IsOf .boolean := by
  unfold absorb
  split
  · exact ⟨typed_constant _ _, isOf_bool _⟩
  · exact ⟨typed, test⟩

theorem simplifyConnective_typed (n : Node) : TakesPlace (Suits Γ) n (simplifyConnective n) := by
  have connective {op : BinaryOp} {absorbing : Bool} (absorbs : absorbing? op = some absorbing) :
      op.isArithmetic = false ∧ op.isLogical = true := by
    cases op <;> first | exact ⟨rfl, rfl⟩ | cases absorbs
  unfold simplifyConnective
  split
  · rename_i op left right type
    -- Whatever side is left, it is a test as the whole is.
    have operands {absorbing : Bool} (absorbs : absorbing? op = some absorbing)
        (typed : (Node.binary op left right type).Typed Γ) : type.underlying = .boolean ∧
          (left.Typed Γ ∧ left.IsOf .boolean) ∧ right.Typed Γ ∧ right.IsOf .boolean := by
      obtain ⟨own, below⟩ := typed_mk.mp typed
      obtain ⟨arithmetic, logical⟩ := connective absorbs
      have own : op.Typed left right type := own
      rw [BinaryOp.Typed, if_neg (by simp [arithmetic])] at own
      obtain ⟨onLeft, onRight⟩ := own.2 logical
      exact ⟨own.1, ⟨below left (by simp [Shape.children]), onLeft⟩, below right (by simp [Shape.children]), onRight⟩
    split
    · rename_i absorbs _
      refine takes_value fun typed => ?_
      obtain ⟨test, -, other⟩ := operands absorbs typed
      show _ ∧ (absorb _ _ _).IsOf type.underlying
      exact test ▸ absorb_typed other.1 other.2
    · rename_i absorbs _ _
      refine takes_value fun typed => ?_
      obtain ⟨test, other, -⟩ := operands absorbs typed
      show _ ∧ (absorb _ _ _).IsOf type.underlying
      exact test ▸ absorb_typed other.1 other.2
    · exact .refl _
  · rename_i operand innerType type
    refine takes_value fun typed => ?_
    obtain ⟨own, below⟩ := typed_mk.mp typed
    obtain ⟨inner, deep⟩ := typed_mk.mp (below _ List.mem_cons_self)
    show _ ∧ operand.IsOf type.underlying
    exact ⟨deep operand List.mem_cons_self, own.1 ▸ inner.2⟩
  · rename_i operand type _
    split
    · refine takes_value fun typed => ⟨typed_constant _ _, ?_⟩
      show (Node.literal _).IsOf type.underlying
      exact (typed_mk.mp typed).1.1 ▸ isOf_bool _
    · exact .refl _
  · exact .refl _

/-! ### Tests -/

theorem compare_typed {op : BinaryOp} (compares : op.isComparison = true) {left right : Node} (onLeft : left.Typed Γ)
    (onRight : right.Typed Γ) :
    (Node.ofBinary op left right).Typed Γ ∧ (Node.ofBinary op left right).IsOf .boolean := by
  have test : Node.ofBinary op left right = .binary op left right .boolean := by simp [Node.ofBinary, compares]
  rw [test]
  refine ⟨typed_mk.mpr ⟨?_, by simpa [Shape.children] using ⟨onLeft, onRight⟩⟩, isOf_binary op left right .boolean⟩
  show op.Typed left right .boolean
  cases op <;> first | cases compares; done | exact ⟨rfl, fun logical => by cases logical⟩

theorem connect_typed {op : BinaryOp} {a b : Node} (logical : op.isLogical = true) (first : a.Typed Γ ∧ a.IsOf .boolean)
    (second : b.Typed Γ ∧ b.IsOf .boolean) :
    (Node.ofBinary op a b).Typed Γ ∧ (Node.ofBinary op a b).IsOf .boolean := by
  have test : Node.ofBinary op a b = .binary op a b .boolean := by simp [Node.ofBinary, logical]
  rw [test]
  refine ⟨typed_mk.mpr ⟨?_, by simpa [Shape.children] using ⟨first.1, second.1⟩⟩, isOf_binary op a b .boolean⟩
  show op.Typed a b .boolean
  cases op <;> first | cases logical; done | exact ⟨rfl, fun _ => ⟨first.2, second.2⟩⟩

theorem nullTest_typed {test : UnaryOp} (nullTest : test = .isNull ∨ test = .isNotNull) {operand : Node}
    (typed : operand.Typed Γ) : (Node.ofUnary test operand).Typed Γ ∧ (Node.ofUnary test operand).IsOf .boolean := by
  rcases nullTest with rfl | rfl <;>
    exact ⟨typed_mk.mpr ⟨rfl, by simpa [Shape.children] using typed⟩, rfl, rfl, fun _ member => nomatch member⟩

theorem compareEntities_typed {op : BinaryOp} (compares : op.isComparison = true) {left right : Node}
    (onLeft : left.Typed Γ) (onRight : right.Typed Γ) :
    ∀ t ∈ compareEntities? op left right, t.Typed Γ ∧ t.IsOf .boolean := by
  have keys {side : Node} (typed : side.Typed Γ) (entity : String) (keys : List (Binding Node))
      (same : side = .object entity keys) : ∀ k ∈ keys, k.expr.Typed Γ :=
    fun k key => (same ▸ typed).child (List.mem_map_of_mem key)
  exact compareEntities_holds (keys onLeft) (keys onRight) (compare_typed compares)
    (fun key => ⟨nullTest_typed (.inl rfl) key, nullTest_typed (.inr rfl) key⟩) connect_typed

theorem expandComparison_typed (n : Node) : TakesPlace (Suits Γ) n (expandComparison n) := by
  unfold expandComparison
  split
  · rename_i op left right type
    split
    · rename_i equality
      have equality : op = .eq ∨ op = .notEq := by simpa using equality
      cases found : compareEntities? op left right with
      | none => exact .refl _
      | some t =>
        refine takes_value fun typed => ?_
        obtain ⟨own, below⟩ := typed_mk.mp typed
        have own : op.Typed left right type := own
        have test : type.underlying = .boolean := by rcases equality with rfl | rfl <;> exact own.1
        have compares : op.isComparison = true := by rcases equality with rfl | rfl <;> rfl
        show t.Typed Γ ∧ t.IsOf type.underlying
        exact test ▸ compareEntities_typed compares (below left (by simp [Shape.children]))
          (below right (by simp [Shape.children])) t found
    · exact .refl _
  · exact .refl _

theorem literalLike_typed (operand : Node) (value : Value) : (literalLike operand value).Typed Γ := by
  unfold literalLike Node.literal
  split <;> exact typed_constant _ _

theorem membership_typed {operand : Node} {items : List Value} (typed : operand.Typed Γ) :
    ∀ t ∈ membership? operand items, t.Typed Γ ∧ t.IsOf .boolean := by
  refine membership_holds (V := fun _ => True) ⟨typed_constant _ _, isOf_bool _⟩ (fun ns found => ?_)
    (fun _ _ _ _ => trivial) (fun part _ => compare_typed rfl part (literalLike_typed _ _)) connect_typed
    fun _ => ⟨typed_mk.mpr ⟨rfl, ?_⟩, isOf_call .isIn _ .boolean⟩
  · obtain ⟨s, rfl, -, rfl⟩ := components_some found
    exact fun p part => typed.child part
  · simp only [Shape.children, List.forall_mem_cons, List.forall_mem_map]
    exact ⟨typed, fun value _ => literalLike_typed operand value⟩

theorem expandMembership_typed (n : Node) : TakesPlace (Suits Γ) n (expandMembership n) := by
  unfold expandMembership
  split
  · rename_i operand items listType type
    cases found : membership? operand items with
    | none => exact .refl _
    | some t =>
      refine takes_value fun typed => ?_
      obtain ⟨own, below⟩ := typed_mk.mp typed
      have test : type.underlying = .boolean := own
      show t.Typed Γ ∧ t.IsOf type.underlying
      exact test ▸ membership_typed (below operand List.mem_cons_self) t found
  · exact .refl _

/-! ### Values -/

theorem reckon_type {op : BinaryOp} {a b v : Value} (found : reckon? op a b = some v) :
    a.dataType = v.dataType ∧ b.dataType = v.dataType := by
  unfold reckon? at found
  split at found
  · obtain ⟨_, -, rfl⟩ := Option.map_eq_some_iff.mp found
    exact ⟨rfl, rfl⟩
  · obtain ⟨_, -, rfl⟩ := Option.map_eq_some_iff.mp found
    exact ⟨rfl, rfl⟩
  · obtain ⟨_, -, rfl⟩ := Option.map_eq_some_iff.mp found
    exact ⟨rfl, rfl⟩
  · cases found

theorem evaluateBinary_type {op : BinaryOp} {left right : Node} {type : DataType} {a b v : Value}
    (typed : op.Typed left right type) (onLeft : left.constant? = some a) (onRight : right.constant? = some b)
    (found : evaluateBinary? op a b = some v) : v.dataType = type.underlying := by
  unfold evaluateBinary? at found
  split at found
  · cases found
  · rename_i given
    obtain ⟨givenLeft, givenRight⟩ : a.isNull = false ∧ b.isNull = false := by simpa using given
    unfold BinaryOp.Typed at typed
    split at found
    · rename_i logical
      rw [if_neg (by cases op <;> simp_all [BinaryOp.isLogical, BinaryOp.isArithmetic])] at typed
      obtain ⟨x, -, found⟩ := Option.bind_eq_some_iff.mp found
      obtain ⟨y, -, found⟩ := Option.bind_eq_some_iff.mp found
      cases found
      exact typed.1.symm
    · split at found
      · rename_i compares
        rw [if_neg (by cases op <;> simp_all [BinaryOp.isComparison, BinaryOp.isArithmetic])] at typed
        obtain ⟨ordering, -, rfl⟩ := Option.map_eq_some_iff.mp found
        exact typed.1.symm
      · have reckons : op.isArithmetic = true := by
          cases op <;> simp_all [BinaryOp.isLogical, BinaryOp.isComparison, BinaryOp.isArithmetic]
        rw [if_pos reckons] at typed
        obtain ⟨ofLeft, ofRight, same⟩ := typed
        -- Both operands have the form of the outcome, so the operator is typed as they are.
        obtain ⟨first, second⟩ := reckon_type found
        have leftType := ofLeft.value a onLeft givenLeft
        have rightType := ofRight.value b onRight givenRight
        rw [same (by rw [← leftType, ← rightType, first, second]), ← leftType, first]

theorem evaluateUnary_type {op : UnaryOp} {operand : Node} {type : DataType} {a v : Value}
    (typed : op.Typed operand type) (onOperand : operand.constant? = some a)
    (found : evaluateUnary? op a = some v) : v.dataType = type.underlying := by
  unfold evaluateUnary? at found
  split at found
  · cases found
    exact typed.symm
  · cases found
    exact typed.symm
  · cases found
    exact typed.1.symm
  · split at found
    · cases found
    · cases found
      exact (typed.value (.int32 _) onOperand rfl :)
  · split at found
    · cases found
    · cases found
      exact (typed.value (.int64 _) onOperand rfl :)
  · cases found
    exact (typed.value (.double _) onOperand rfl :)
  · cases found

theorem firstGiven_mem {values : List Value} (given : (Value.firstGiven values).isNull = false) :
    Value.firstGiven values ∈ values := by
  unfold Value.firstGiven at given ⊢
  cases found : values.find? fun v => !v.isNull with
  | none => rw [found] at given; cases given
  | some v => exact List.mem_of_find?_eq_some found

theorem evaluateRoutine_type {routine : Routine} {arguments : List Node} {type : DataType} {values : List Value}
    {v : Value} (typed : routine.Typed arguments type) (literals : arguments.mapM Node.constant? = some values)
    (found : routine.evaluate? values = some v) (given : v.isNull = false) : v.dataType = type.underlying := by
  -- Routines that pass a value on are of the type of their arguments.
  have ofArgument (each : ∀ a ∈ arguments, a.IsOf type.underlying) {w : Value} (listed : w ∈ values)
      (given : w.isNull = false) : w.dataType = type.underlying := by
    obtain ⟨a, argument, literal⟩ := exists_of_mapM literals w listed
    exact (each a argument).value w literal given
  unfold Routine.evaluate? at found
  split at found
  · obtain ⟨texts, -, rfl⟩ := Option.map_eq_some_iff.mp found
    exact typed.1.symm
  · obtain rfl := Option.some.inj found
    exact ofArgument typed (firstGiven_mem given) given
  iterate 7
    · obtain rfl := Option.some.inj found
      exact typed.symm
  · split at found
    · cases found
    · obtain rfl := Option.some.inj found
      exact (ofArgument typed (w := .int32 _) List.mem_cons_self rfl :)
  · split at found
    · cases found
    · obtain rfl := Option.some.inj found
      exact (ofArgument typed (w := .int64 _) List.mem_cons_self rfl :)
  · obtain rfl := Option.some.inj found
    exact (ofArgument typed (w := .double _) List.mem_cons_self rfl :)
  · cases found

/-- An expression that is evaluated has a value of its type. -/
theorem evaluate_type {v : Value} (typed : n.Typed Γ) (found : evaluate? n = some v) (given : v.isNull = false) :
    v.dataType = n.dataType.underlying := by
  have own := fun s (same : n = .mk s) => (typed_mk.mp (same ▸ typed)).1
  unfold evaluate? at found
  split at found
  · obtain ⟨a, onLeft, found⟩ := Option.bind_eq_some_iff.mp found
    obtain ⟨b, onRight, found⟩ := Option.bind_eq_some_iff.mp found
    exact evaluateBinary_type (own _ rfl) onLeft onRight found
  · obtain ⟨a, onOperand, found⟩ := Option.bind_eq_some_iff.mp found
    exact evaluateUnary_type (own _ rfl) onOperand found
  · obtain ⟨values, literals, found⟩ := Option.bind_eq_some_iff.mp found
    exact evaluateRoutine_type (own _ rfl) literals found given
  · cases found

theorem foldLiteral_typed (n : Node) : TakesPlace (Suits Γ) n (foldLiteral n) := by
  unfold foldLiteral
  split
  · rename_i v found
    refine takes_value fun typed => ⟨typed_constant _ _, ?_⟩
    cases null : v.isNull with
    | true => exact isOf_constant rfl (by simp [null])
    | false =>
      have same := evaluate_type typed found null
      exact isOf_constant (by simpa [same] using v.underlying_dataType) fun _ => same
  · exact .refl _

/-! ### Calls and choices -/

theorem unwrapCall_typed (n : Node) : TakesPlace (Suits Γ) n (unwrapCall n) := by
  unfold unwrapCall
  split
  · rename_i only type
    refine takes_value fun typed => ?_
    obtain ⟨⟨text, -, single⟩, below⟩ := typed_mk.mp typed
    show _ ∧ only.IsOf type.underlying
    exact ⟨below only List.mem_cons_self, text ▸ single only rfl⟩
  · rename_i only type
    refine takes_value fun typed => ?_
    obtain ⟨each, below⟩ := typed_mk.mp typed
    exact ⟨below only List.mem_cons_self, each only List.mem_cons_self⟩
  · rename_i routine inner argument innerType type _ _
    split
    · rename_i again
      obtain ⟨idempotent, rfl⟩ : routine.isIdempotent = true ∧ inner = routine := by simpa using again
      refine takes_value fun typed => ?_
      obtain ⟨own, below⟩ := typed_mk.mp typed
      have once := below _ List.mem_cons_self
      have innerOwn : inner.Typed [argument] innerType := (typed_mk.mp once).1
      have own : inner.Typed [.call inner [argument] innerType] type := own
      -- A call that changes nothing the second time gives what it is given, so both are of one type.
      have same : innerType.underlying = type.underlying := by
        cases inner with
        | upper | lower | trim => exact innerOwn.trans own.symm
        | abs => exact (own _ List.mem_cons_self).declared
        | _ => cases idempotent
      refine ⟨once, ?_⟩
      show (Node.call inner [argument] innerType).IsOf type.underlying
      exact same ▸ isOf_call _ _ _
    · exact .refl _
  · exact .refl _

theorem simplifyConditional_typed (n : Node) : TakesPlace (Suits Γ) n (simplifyConditional n) := by
  unfold simplifyConditional
  split
  · rename_i branches otherwise type
    split
    · refine takes_value fun typed => ?_
      obtain ⟨⟨results, last⟩, below⟩ := typed_mk.mp typed
      obtain ⟨onBranches, onLast⟩ := Shape.forall_conditional.mp below
      obtain ⟨kept, left⟩ := pruneBranches_part otherwise branches
      -- What is left as the result was a branch or the `ELSE`, both of the type of the whole.
      have result : ∀ r ∈ (pruneBranches otherwise branches).2, r.Typed Γ ∧ r.IsOf type.underlying := by
        intro r member
        rcases left r member with member | ⟨b, branch, rfl⟩
        · exact ⟨onLast r member, last r member⟩
        · exact ⟨(onBranches b branch).2, results b branch⟩
      split
      · rename_i pruned
        exact result _ (by rw [pruned]; rfl)
      · exact ⟨typed_constant _ _, isOf_constant rfl nofun⟩
      · rename_i kept' last' _ _ pruned
        rw [pruned] at kept result
        have own := And.intro (fun b branch => results b (kept b branch)) fun r member => (result r member).2
        have below := And.intro (fun b branch => onBranches b (kept b branch)) fun r member => (result r member).1
        exact ⟨typed_mk.mpr ⟨own, Shape.forall_conditional.mpr below⟩, rfl, rfl, fun _ member => nomatch member⟩
    · exact .refl _
  · exact .refl _

theorem rules_typed : ∀ rule ∈ rules, ∀ n, TakesPlace (Suits Γ) n (rule n) := by
  simp only [rules, List.forall_mem_cons]
  exact ⟨flattenCall_typed, simplifyConnective_typed, expandComparison_typed, foldLiteral_typed, unwrapCall_typed,
    simplifyConditional_typed, expandMembership_typed, fun _ member => absurd member List.not_mem_nil⟩

end Pass

end QueryTree
