import QueryTree.Proofs.Node.Codes

/-! Trees that are written the same way are alike.

The marks of a tree are its kind, by which it is known what comes next, and then its fields and children, one behind
  the
other. Two trees are read side by side: where the writes begin in the same way, each field is the same and each child
alike, and the rest goes on in the same way. Lists say how long they are before they begin, so they are read in step.
-/

set_option autoImplicit false

namespace QueryTree

/-- Where two lists of marks are written and the writes go on in the same way, `P` holds and the rest is the same. -/
def Decodes (moments : Coding Moment) (as bs : List Mark) (P : Prop) : Prop :=
  ∀ r s, as.flatMap (Mark.writes moments.writes) ++ r = bs.flatMap (Mark.writes moments.writes) ++ s → P ∧ r = s

namespace Decodes

variable {moments : Coding Moment} {a b : Mark} {as bs ms ns : List Mark} {P Q : Prop}

theorem imp (implies : P → Q) (decodes : Decodes moments as bs P) : Decodes moments as bs Q :=
  fun r s same => (decodes r s same).imp_left implies

theorem nil : Decodes moments [] [] True := fun _ _ same => ⟨trivial, same⟩

theorem cons (form : a.ctorIdx = b.ctorIdx) (rest : a = b → Decodes moments as bs P) :
    Decodes moments (a :: as) (b :: bs) (a = b ∧ P) := by
  intro r s same
  rw [List.flatMap_cons, List.flatMap_cons, List.append_assoc, List.append_assoc] at same
  obtain ⟨first, others⟩ := Mark.writes_apart moments form same
  obtain ⟨holds, behind⟩ := rest first r s others
  exact ⟨⟨first, holds⟩, behind⟩

theorem other (form : a.ctorIdx = b.ctorIdx) (differ : a ≠ b) : Decodes moments (a :: as) (b :: bs) P := by
  intro r s same
  rw [List.flatMap_cons, List.flatMap_cons, List.append_assoc, List.append_assoc] at same
  exact absurd (Mark.writes_apart moments form same).1 differ

theorem own : ∀ {as bs : List Mark}, as.map Mark.ctorIdx = bs.map Mark.ctorIdx → Decodes moments as bs (as = bs)
  | [], [], _ => .imp (fun _ => rfl) .nil
  | _ :: _, _ :: _, forms => .imp (fun same => by rw [same.1, same.2])
      (.cons (List.cons.inj forms).1 fun _ => own (List.cons.inj forms).2)

theorem append (first : Decodes moments as bs P) (rest : P → Decodes moments ms ns Q) :
    Decodes moments (as ++ ms) (bs ++ ns) (P ∧ Q) := by
  intro r s same
  rw [List.flatMap_append, List.flatMap_append, List.append_assoc, List.append_assoc] at same
  obtain ⟨before, others⟩ := first _ _ same
  obtain ⟨holds, behind⟩ := rest before r s others
  exact ⟨⟨before, holds⟩, behind⟩

end Decodes

namespace Node

theorem marks_kind (f : Leniency) (n : Node) : ∃ rest, n.marks f = .kind n.kind :: rest := by
  obtain ⟨s⟩ := n
  apply List.head?_eq_some_iff.mp
  cases s <;> rfl

variable {moments : Coding Moment} {f : Leniency}

/-- A tree is told by its marks from those that are not alike. So are a child that may be absent, lists of children and
whatever else there is in a layer. -/
def Told (moments : Coding Moment) (f : Leniency) (a : Node) : Prop :=
  ∀ b, Decodes moments (a.marks f) (b.marks f) (a.alike f b = true)

def ToldOption (moments : Coding Moment) (f : Leniency) (a : Option Node) : Prop :=
  ∀ b, Decodes moments (marksOption f a) (marksOption f b) (alikeOption f a b = true)

def ToldList (moments : Coding Moment) (f : Leniency) (as : List Node) : Prop :=
  ∀ bs, as.length = bs.length → Decodes moments (marksList f as) (marksList f bs) (alikeList f as bs = true)

def ToldBindings (moments : Coding Moment) (f : Leniency) (as : List (Binding Node)) : Prop :=
  ∀ bs, as.length = bs.length →
    Decodes moments (marksBindings f as) (marksBindings f bs) (alikeBindings f as bs = true)

def ToldOrder (moments : Coding Moment) (f : Leniency) (as : List (OrderItem Node)) : Prop :=
  ∀ bs, as.length = bs.length → Decodes moments (marksOrder f as) (marksOrder f bs) (alikeOrder f as bs = true)

def ToldBranches (moments : Coding Moment) (f : Leniency) (as : List (Branch Node)) : Prop :=
  ∀ bs, as.length = bs.length →
    Decodes moments (marksBranches f as) (marksBranches f bs) (alikeBranches f as bs = true)

def ToldConstraint (moments : Coding Moment) (f : Leniency) (a : ConstraintKind Node) : Prop :=
  ∀ b, Decodes moments (marksConstraint f a) (marksConstraint f b) (alikeConstraint f a b = true)

theorem told_of_kind {a : Node} (told : ∀ t : Shape Node, a.kind = t.kind →
    Decodes moments (a.marks f) ((Node.mk t).marks f) (a.alike f (.mk t) = true)) : Told moments f a := by
  rintro ⟨t⟩
  obtain ⟨as, ofA⟩ := a.marks_kind f
  obtain ⟨bs, ofB⟩ := (Node.mk t).marks_kind f
  intro r s same
  refine told t ?_ r s same
  rw [ofA, ofB, List.flatMap_cons, List.flatMap_cons, List.append_assoc, List.append_assoc] at same
  have first := Mark.writes_apart moments (a := .kind a.kind) (b := .kind t.kind) rfl same
  exact Mark.kind.inj first.1

theorem told_table {name label : String} {type : DataType} :
    Told moments f (.table name label type) := told_of_kind fun t kinds => by
  cases t with
  | table name' label' type' =>
    refine .imp (fun own => ?_) (.cons rfl fun _ => .cons rfl fun _ => .cons rfl fun _ => .cons rfl fun _ => .nil)
    simp at own
    simp [alike, own]
  | _ => cases kinds

theorem told_select {label : String} {columns : List (Binding Node)} {source filter skip take : Option Node}
    {groupBy : List Node} {orderBy : List (OrderItem Node)} {distinct forUpdate : Bool} {type : DataType}
    (ofColumns : ToldBindings moments f columns) (ofSource : ToldOption moments f source)
    (ofFilter : ToldOption moments f filter) (ofOrderBy : ToldOrder moments f orderBy)
    (ofGroupBy : ToldList moments f groupBy) (ofSkip : ToldOption moments f skip)
    (ofTake : ToldOption moments f take) :
    Told moments f
      (.select ⟨label, columns, source, filter, groupBy, orderBy, distinct, skip, take, forUpdate, type⟩) := by
  refine told_of_kind fun t kinds => ?_
  cases t with
  | select q =>
    -- The lengths written before the two lists tell where each of them ends.
    refine .imp (fun like => ?_) (.append (.append (.append (.append (.append (.append (.append (.own rfl)
      fun own => ofColumns q.columns (by simp at own; simp [own]))
      fun _ => ofSource q.source)
      fun _ => ofFilter q.filter)
      fun _ => .cons rfl fun long => ofOrderBy q.orderBy (Mark.number.inj long))
      fun _ => .cons rfl fun long => ofGroupBy q.groupBy (Mark.number.inj long))
      fun _ => ofSkip q.skip)
      fun _ => ofTake q.take)
    obtain ⟨⟨⟨⟨⟨⟨⟨own, likeColumns⟩, likeSource⟩, likeFilter⟩, -, likeOrderBy⟩, -, likeGroupBy⟩, likeSkip⟩,
      likeTake⟩ := like
    simp at own
    simp [alike, own, likeColumns, likeSource, likeFilter, likeOrderBy, likeGroupBy, likeSkip, likeTake]
  | _ => cases kinds

theorem told_join {kind : JoinKind} {left right : Node} {condition : Option Node}
    (ofLeft : Told moments f left) (ofRight : Told moments f right) (ofCondition : ToldOption moments f condition) :
    Told moments f (.join kind left right condition) := told_of_kind fun t kinds => by
  cases t with
  | join kind' left' right' condition' =>
    refine .imp (fun like => ?_) (.append (.append (.append (.own rfl) fun _ => ofLeft left') fun _ =>
      ofRight right') fun _ => ofCondition condition')
    obtain ⟨⟨⟨own, likeLeft⟩, likeRight⟩, likeCondition⟩ := like
    simp at own
    simp [alike, own, likeLeft, likeRight, likeCondition]
  | _ => cases kinds

theorem told_aggregate {kind : AggregateKind} {argument : Option Node} {distinct : Bool} {type : DataType}
    (ofArgument : ToldOption moments f argument) :
    Told moments f (.aggregate kind argument distinct type) := told_of_kind fun t kinds => by
  cases t with
  | aggregate kind' argument' distinct' type' =>
    refine .imp (fun like => ?_) (.append (.own rfl) fun _ => ofArgument argument')
    obtain ⟨own, likeArgument⟩ := like
    simp at own
    simp [alike, own, likeArgument]
  | _ => cases kinds

theorem told_groupAggregate {label : String} {inGroup asQuery : Node} {type : DataType}
    (ofInGroup : Told moments f inGroup) (ofAsQuery : Told moments f asQuery) :
    Told moments f (.groupAggregate label inGroup asQuery type) := told_of_kind fun t kinds => by
  cases t with
  | groupAggregate label' inGroup' asQuery' type' =>
    refine .imp (fun like => ?_) (.append (.append (.own rfl) fun _ => ofInGroup inGroup') fun _ =>
      ofAsQuery asQuery')
    obtain ⟨⟨own, likeInGroup⟩, likeAsQuery⟩ := like
    simp at own
    simp [alike, own, likeInGroup, likeAsQuery]
  | _ => cases kinds

theorem told_subquery {kind : SubqueryKind} {operand : Option Node} {query : Node} {type : DataType}
    (ofOperand : ToldOption moments f operand) (ofQuery : Told moments f query) :
    Told moments f (.subquery kind operand query type) := told_of_kind fun t kinds => by
  cases t with
  | subquery kind' operand' query' type' =>
    refine .imp (fun like => ?_) (.append (.append (.own rfl) fun _ => ofOperand operand') fun _ => ofQuery query')
    obtain ⟨⟨own, likeOperand⟩, likeQuery⟩ := like
    simp at own
    simp [alike, own, likeOperand, likeQuery]
  | _ => cases kinds

theorem told_call {routine : Routine} {arguments : List Node} {type : DataType}
    (ofArguments : ToldList moments f arguments) :
    Told moments f (.call routine arguments type) := told_of_kind fun t kinds => by
  cases t with
  | call routine' arguments' type' =>
    refine .imp (fun like => ?_) (.append (.own rfl) fun own => ofArguments arguments' (by simp at own; simp [own]))
    obtain ⟨own, likeArguments⟩ := like
    simp at own
    simp [alike, own, likeArguments]
  | _ => cases kinds

theorem told_parameter {name : String} {type : DataType} :
    Told moments f (.parameter name type) := told_of_kind fun t kinds => by
  cases t with
  | parameter name' type' =>
    refine .imp (fun own => ?_) (.cons rfl fun _ => .cons rfl fun _ => .cons rfl fun _ => .nil)
    simp at own
    simp [alike, own]
  | _ => cases kinds

theorem told_window {source : Node} {orderBy : List (OrderItem Node)}
    (ofSource : Told moments f source) (ofOrderBy : ToldOrder moments f orderBy) :
    Told moments f (.window source orderBy) := told_of_kind fun t kinds => by
  cases t with
  | window source' orderBy' =>
    refine .imp (fun like => ?_) (.append (.append (.own rfl) fun _ => ofSource source') fun _ =>
      .cons rfl fun long => ofOrderBy orderBy' (Mark.number.inj long))
    obtain ⟨⟨-, likeSource⟩, -, likeOrderBy⟩ := like
    simp [alike, likeSource, likeOrderBy]
  | _ => cases kinds

theorem told_binary {op : BinaryOp} {left right : Node} {type : DataType}
    (ofLeft : Told moments f left) (ofRight : Told moments f right) :
    Told moments f (.binary op left right type) := told_of_kind fun t kinds => by
  cases t with
  | binary op' left' right' type' =>
    refine .imp (fun like => ?_) (.append (.append (.own rfl) fun _ => ofLeft left') fun _ => ofRight right')
    obtain ⟨⟨own, likeLeft⟩, likeRight⟩ := like
    simp at own
    simp [alike, own, likeLeft, likeRight]
  | _ => cases kinds

theorem told_unary {op : UnaryOp} {operand : Node} {type : DataType}
    (ofOperand : Told moments f operand) :
    Told moments f (.unary op operand type) := told_of_kind fun t kinds => by
  cases t with
  | unary op' operand' type' =>
    refine .imp (fun like => ?_) (.append (.own rfl) fun _ => ofOperand operand')
    obtain ⟨own, likeOperand⟩ := like
    simp at own
    simp [alike, own, likeOperand]
  | _ => cases kinds

theorem told_conditional {branches : List (Branch Node)} {otherwise : Option Node} {type : DataType}
    (ofBranches : ToldBranches moments f branches) (ofOtherwise : ToldOption moments f otherwise) :
    Told moments f (.conditional branches otherwise type) := told_of_kind fun t kinds => by
  cases t with
  | conditional branches' otherwise' type' =>
    refine .imp (fun like => ?_) (.append (.append (.own rfl) fun own =>
      ofBranches branches' (by simp at own; simp [own])) fun _ => ofOtherwise otherwise')
    obtain ⟨⟨own, likeBranches⟩, likeOtherwise⟩ := like
    simp at own
    simp [alike, own, likeBranches, likeOtherwise]
  | _ => cases kinds

theorem told_tuple {elements : List Node}
    (ofElements : ToldList moments f elements) :
    Told moments f (.tuple elements) := told_of_kind fun t kinds => by
  cases t with
  | tuple elements' =>
    refine .imp (fun like => ?_) (.append (.own rfl) fun own => ofElements elements' (by simp at own; simp [own]))
    obtain ⟨-, likeElements⟩ := like
    simp [alike, likeElements]
  | _ => cases kinds

theorem told_object {entity : String} {keys : List (Binding Node)}
    (ofKeys : ToldBindings moments f keys) :
    Told moments f (.object entity keys) := told_of_kind fun t kinds => by
  cases t with
  | object entity' keys' =>
    refine .imp (fun like => ?_) (.append (.own rfl) fun own => ofKeys keys' (by simp at own; simp [own]))
    obtain ⟨own, likeKeys⟩ := like
    simp at own
    simp [alike, own, likeKeys]
  | _ => cases kinds

theorem told_insert {owner : String} {columns returning : List String} {values : List Node} {identityInsert : Bool}
    (ofValues : ToldList moments f values) :
    Told moments f (.insert ⟨owner, columns, values, returning, identityInsert⟩) := told_of_kind fun t kinds => by
  cases t with
  | insert i =>
    refine .imp (fun like => ?_) (.append (.own rfl) fun own => ofValues i.values (by simp at own; simp [own]))
    obtain ⟨own, likeValues⟩ := like
    simp at own
    simp [alike, own, likeValues]
  | _ => cases kinds

theorem told_update {owner : String} {assignments : List (Binding Node)} {filter : Option Node}
    {identityInsert : Bool}
    (ofAssignments : ToldBindings moments f assignments) (ofFilter : ToldOption moments f filter) :
    Told moments f (.update ⟨owner, assignments, filter, identityInsert⟩) := told_of_kind fun t kinds => by
  cases t with
  | update u =>
    refine .imp (fun like => ?_) (.append (.append (.own rfl) fun own =>
      ofAssignments u.assignments (by simp at own; simp [own])) fun _ => ofFilter u.filter)
    obtain ⟨⟨own, likeAssignments⟩, likeFilter⟩ := like
    simp at own
    simp [alike, own, likeAssignments, likeFilter]
  | _ => cases kinds

theorem told_delete {owner : String} {label : Option String} {filter : Option Node}
    (ofFilter : ToldOption moments f filter) :
    Told moments f (.delete owner label filter) := told_of_kind fun t kinds => by
  cases t with
  | delete owner' label' filter' =>
    refine .imp (fun like => ?_) (.append (.own rfl) fun _ => ofFilter filter')
    obtain ⟨own, likeFilter⟩ := like
    simp at own
    simp [alike, own, likeFilter]
  | _ => cases kinds

theorem told_createTable {owner : String} {ifNotExists : Bool} {columns constraints : List Node}
    (ofColumns : ToldList moments f columns) (ofConstraints : ToldList moments f constraints) :
    Told moments f (.createTable ⟨owner, ifNotExists, columns, constraints⟩) := told_of_kind fun t kinds => by
  cases t with
  | createTable t =>
    refine .imp (fun like => ?_) (.append (.append (.own rfl) fun own =>
      ofColumns t.columns (by simp at own; simp [own])) fun _ =>
      .cons rfl fun long => ofConstraints t.constraints (Mark.number.inj long))
    obtain ⟨⟨own, likeColumns⟩, -, likeConstraints⟩ := like
    simp at own
    simp [alike, own, likeColumns, likeConstraints]
  | _ => cases kinds

theorem told_alterTable {owner : String} {actions : List Node}
    (ofActions : ToldList moments f actions) :
    Told moments f (.alterTable owner actions) := told_of_kind fun t kinds => by
  cases t with
  | alterTable owner' actions' =>
    refine .imp (fun like => ?_) (.append (.own rfl) fun own => ofActions actions' (by simp at own; simp [own]))
    obtain ⟨own, likeActions⟩ := like
    simp at own
    simp [alike, own, likeActions]
  | _ => cases kinds

theorem told_columnDefinition {name : String} {type : DataType} {constraints : List Node}
    (ofConstraints : ToldList moments f constraints) :
    Told moments f (.columnDefinition name type constraints) := told_of_kind fun t kinds => by
  cases t with
  | columnDefinition name' type' constraints' =>
    refine .imp (fun like => ?_) (.append (.own rfl) fun own =>
      ofConstraints constraints' (by simp at own; simp [own]))
    obtain ⟨own, likeConstraints⟩ := like
    simp at own
    simp [alike, own, likeConstraints]
  | _ => cases kinds

theorem told_constraint {name : Option String} {kind : ConstraintKind Node}
    (ofKind : ToldConstraint moments f.inline kind) :
    Told moments f (.constraint name kind) := told_of_kind fun t kinds => by
  cases t with
  | constraint name' kind' =>
    refine .imp (fun like => ?_) (.append (.own rfl) fun _ => ofKind kind')
    obtain ⟨own, likeKind⟩ := like
    simp at own
    simp [alike, own, likeKind]
  | _ => cases kinds

theorem told_constraintAction {change : ConstraintChange} {target : Node}
    (ofTarget : Told moments f target) :
    Told moments f (.constraintAction change target) := told_of_kind fun t kinds => by
  cases t with
  | constraintAction change' target' =>
    refine .imp (fun like => ?_) (.append (.own rfl) fun _ => ofTarget target')
    obtain ⟨own, likeTarget⟩ := like
    simp at own
    simp [alike, own, likeTarget]
  | _ => cases kinds

theorem told_createIndex {name owner : String} {columns : List IndexedColumn} {unique clustered ifNotExists : Bool}
    {filter : Option Node}
    (ofFilter : ToldOption moments f.inline filter) :
    Told moments f (.createIndex ⟨name, owner, columns, unique, clustered, ifNotExists, filter⟩) := by
  refine told_of_kind fun t kinds => ?_
  cases t with
  | createIndex i =>
    refine .imp (fun like => ?_) (.append (.own rfl) fun _ => ofFilter i.filter)
    obtain ⟨own, likeFilter⟩ := like
    simp at own
    simp [alike, own, likeFilter]
  | _ => cases kinds

theorem told_enumDefinition {name : String} {labels : List String} :
    Told moments f (.enumDefinition name labels) := told_of_kind fun t kinds => by
  cases t with
  | enumDefinition name' labels' =>
    refine .imp (fun own => ?_) (.cons rfl fun _ => .cons rfl fun _ => .cons rfl fun _ => .cons rfl fun _ => .nil)
    simp at own
    simp [alike, own]
  | _ => cases kinds

theorem told_setCommand {name : String} {arguments : List Node}
    (ofArguments : ToldList moments f.inline arguments) :
    Told moments f (.setCommand name arguments) := told_of_kind fun t kinds => by
  cases t with
  | setCommand name' arguments' =>
    refine .imp (fun like => ?_) (.append (.own rfl) fun own => ofArguments arguments' (by simp at own; simp [own]))
    obtain ⟨own, likeArguments⟩ := like
    simp at own
    simp [alike, own, likeArguments]
  | _ => cases kinds

theorem told_statements {list : List Node}
    (ofList : ToldList moments f list) :
    Told moments f (.statements list) := told_of_kind fun t kinds => by
  cases t with
  | statements list' =>
    refine .imp (fun like => ?_) (.append (.own rfl) fun own => ofList list' (by simp at own; simp [own]))
    obtain ⟨-, likeList⟩ := like
    simp [alike, likeList]
  | _ => cases kinds

theorem told_column {c : Column} : Told moments f (.column c) := told_of_kind fun t kinds => by
  obtain ⟨label, name, type⟩ := c
  cases t with
  | column c' =>
    obtain ⟨label', name', type'⟩ := c'
    simp only [marks]
    refine .imp ?_ (.cons rfl fun _ => .cons rfl fun _ => .cons rfl fun _ => .nil)
    rintro ⟨-, ⟨⟩, ⟨⟩, -⟩
    simp [alike]
  | _ => cases kinds

theorem told_constant {value : Value} {type : DataType} :
    Told moments f (.constant value type) := told_of_kind fun t kinds => by
  cases t with
  | constant value' type' =>
    simp only [marks]
    refine .imp ?_ (.cons rfl fun _ => .cons rfl fun _ => .cons (by cases f.constants <;> rfl) fun _ => .nil)
    rintro ⟨-, ⟨⟩, same, -⟩
    cases lenient : f.constants <;> simpa [alike_constant, lenient] using same
  | _ => cases kinds

theorem told_placeholder {index : Nat} {type : DataType} :
    Told moments f (.placeholder index type) := told_of_kind fun t kinds => by
  cases t with
  | placeholder index' type' =>
    cases lenient : f.placeholders with
    | true =>
      simp only [marks, lenient, if_true, List.append_nil]
      refine .imp ?_ (.cons rfl fun _ => .cons rfl fun _ => .nil)
      rintro ⟨-, ⟨⟩, -⟩
      simp [alike_placeholder, lenient]
    | false =>
      simp only [marks, lenient, Bool.false_eq_true, if_false, List.cons_append, List.nil_append]
      refine .imp ?_ (.cons rfl fun _ => .cons rfl fun _ => .cons rfl fun _ => .nil)
      rintro ⟨-, ⟨⟩, ⟨⟩, -⟩
      simp [alike_placeholder]
  | _ => cases kinds

theorem told_bindings {name : String} {a : Node} {as : List (Binding Node)} (here : Told moments f a)
    (there : ToldBindings moments f as) : ToldBindings moments f (⟨name, a⟩ :: as)
  | ⟨name', b⟩ :: bs, lengths => by
    simp only [marksBindings, List.cons_append]
    refine .imp ?_ (.cons rfl fun _ => .append (here b) fun _ => there bs (Nat.succ.inj lengths))
    rintro ⟨⟨⟩, likeHere, likeThere⟩
    simp [alikeBindings, likeHere, likeThere]

theorem told_order {direction : Direction} {a : Node} {as : List (OrderItem Node)} (here : Told moments f a)
    (there : ToldOrder moments f as) : ToldOrder moments f (⟨a, direction⟩ :: as)
  | ⟨b, direction'⟩ :: bs, lengths => by
    simp only [marksOrder, List.cons_append]
    refine .imp ?_ (.cons rfl fun _ => .append (here b) fun _ => there bs (Nat.succ.inj lengths))
    rintro ⟨⟨⟩, likeHere, likeThere⟩
    simp [alikeOrder, likeHere, likeThere]

theorem told_branches {condition result : Node} {as : List (Branch Node)} (tested : Told moments f condition)
    (given : Told moments f result) (there : ToldBranches moments f as) :
    ToldBranches moments f (⟨condition, result⟩ :: as)
  | ⟨condition', result'⟩ :: bs, lengths => by
    simp only [marksBranches, List.append_assoc]
    refine .imp ?_ (.append (tested condition') fun _ => .append (given result') fun _ =>
      there bs (Nat.succ.inj lengths))
    rintro ⟨likeTested, likeGiven, likeThere⟩
    simp [alikeBranches, likeTested, likeGiven, likeThere]

theorem told_default {value : Node} (told : Told moments f value) : ToldConstraint moments f (.default value) := by
  intro b
  cases b with
  | default value' =>
    refine .imp (fun same => ?_) (.cons rfl fun _ => told value')
    rw [alikeConstraint]
    exact same.2
  | _ => exact .other rfl (by simp)

theorem told_primaryKey {columns : List String} {clustered : Option Bool} :
    ToldConstraint moments f (.primaryKey columns clustered) := by
  intro b
  cases b with
  | primaryKey columns' clustered' =>
    refine .imp ?_ (.cons rfl fun _ => .cons rfl fun _ => .cons rfl fun _ => .nil)
    rintro ⟨-, ⟨⟩, ⟨⟩, -⟩
    simp [alikeConstraint]
  | _ => exact .other rfl (by simp)

theorem told_unique {columns : List String} : ToldConstraint moments f (.unique columns) := by
  intro b
  cases b with
  | unique columns' =>
    refine .imp ?_ (.cons rfl fun _ => .cons rfl fun _ => .nil)
    rintro ⟨-, ⟨⟩, -⟩
    simp [alikeConstraint]
  | _ => exact .other rfl (by simp)

theorem told_foreignKey {key : ForeignKey} : ToldConstraint moments f (.foreignKey key) := by
  intro b
  obtain ⟨columns, referencedTable, referencedColumns, onDelete, onUpdate⟩ := key
  cases b with
  | foreignKey key' =>
    obtain ⟨columns', referencedTable', referencedColumns', onDelete', onUpdate'⟩ := key'
    refine .imp ?_ (.cons rfl fun _ => .cons rfl fun _ => .cons rfl fun _ => .cons rfl fun _ => .cons rfl fun _ =>
      .cons rfl fun _ => .nil)
    rintro ⟨-, ⟨⟩, ⟨⟩, ⟨⟩, ⟨⟩, ⟨⟩, -⟩
    simp [alikeConstraint]
  | _ => exact .other rfl (by simp)

theorem told_notNull : ToldConstraint moments f .notNull := by
  intro b
  cases b with
  | notNull => exact .imp (fun _ => by rw [alikeConstraint]) (.cons rfl fun _ => .nil)
  | _ => exact .other rfl (by simp)

theorem told_autoIncrement : ToldConstraint moments f .autoIncrement := by
  intro b
  cases b with
  | autoIncrement => exact .imp (fun _ => by rw [alikeConstraint]) (.cons rfl fun _ => .nil)
  | _ => exact .other rfl (by simp)

variable (moments)

mutual

theorem told : ∀ (f : Leniency) (a : Node), Told moments f a
  | _, .table _ _ _ => told_table
  | f, .select ⟨_, columns, source, filter, groupBy, orderBy, _, skip, take, _, _⟩ =>
    told_select (toldBindings f columns) (toldOption f source) (toldOption f filter) (toldOrder f orderBy)
      (toldList f groupBy) (toldOption f skip) (toldOption f take)
  | f, .join _ left right condition => told_join (told f left) (told f right) (toldOption f condition)
  | f, .aggregate _ argument _ _ => told_aggregate (toldOption f argument)
  | f, .groupAggregate _ inGroup asQuery _ => told_groupAggregate (told f inGroup) (told f asQuery)
  | f, .subquery _ operand query _ => told_subquery (toldOption f operand) (told f query)
  | f, .call _ arguments _ => told_call (toldList f arguments)
  | _, .parameter _ _ => told_parameter
  | f, .window source orderBy => told_window (told f source) (toldOrder f orderBy)
  | f, .binary _ left right _ => told_binary (told f left) (told f right)
  | f, .unary _ operand _ => told_unary (told f operand)
  | f, .conditional branches otherwise _ => told_conditional (toldBranches f branches) (toldOption f otherwise)
  | f, .tuple elements => told_tuple (toldList f elements)
  | f, .object _ keys => told_object (toldBindings f keys)
  | f, .insert ⟨_, _, values, _, _⟩ => told_insert (toldList f values)
  | f, .update ⟨_, assignments, filter, _⟩ => told_update (toldBindings f assignments) (toldOption f filter)
  | f, .delete _ _ filter => told_delete (toldOption f filter)
  | f, .createTable ⟨_, _, columns, constraints⟩ => told_createTable (toldList f columns) (toldList f constraints)
  | f, .alterTable _ actions => told_alterTable (toldList f actions)
  | f, .columnDefinition _ _ constraints => told_columnDefinition (toldList f constraints)
  | f, .constraint _ kind => told_constraint (toldConstraint f.inline kind)
  | f, .constraintAction _ target => told_constraintAction (told f target)
  | f, .createIndex ⟨_, _, _, _, _, _, filter⟩ => told_createIndex (toldOption f.inline filter)
  | _, .enumDefinition _ _ => told_enumDefinition
  | f, .setCommand _ arguments => told_setCommand (toldList f.inline arguments)
  | f, .statements list => told_statements (toldList f list)
  | _, .column _ => told_column
  | _, .constant _ _ => told_constant
  | _, .placeholder _ _ => told_placeholder

theorem toldOption : ∀ (f : Leniency) (a : Option Node), ToldOption moments f a
  | _, none, none => .imp (fun _ => by rw [alikeOption]) (.cons rfl fun _ => .nil)
  | _, none, some _ | _, some _, none => .other rfl (by simp)
  | f, some a, some b => .imp (fun same => by rw [alikeOption]; exact same.2) (.cons rfl fun _ => told f a b)

theorem toldList : ∀ (f : Leniency) (as : List Node), ToldList moments f as
  | _, [], [], _ => .imp (fun _ => by rw [alikeList]) .nil
  | f, a :: as, b :: bs, lengths => .imp (fun same => by rw [alikeList, same.1, same.2]; rfl)
      (.append (told f a b) fun _ => toldList f as bs (Nat.succ.inj lengths))

theorem toldBindings : ∀ (f : Leniency) (as : List (Binding Node)), ToldBindings moments f as
  | _, [], [], _ => .imp (fun _ => by rw [alikeBindings]) .nil
  | f, ⟨_, a⟩ :: as, bs, lengths => told_bindings (told f a) (toldBindings f as) bs lengths

theorem toldOrder : ∀ (f : Leniency) (as : List (OrderItem Node)), ToldOrder moments f as
  | _, [], [], _ => .imp (fun _ => by rw [alikeOrder]) .nil
  | f, ⟨a, _⟩ :: as, bs, lengths => told_order (told f a) (toldOrder f as) bs lengths

theorem toldBranches : ∀ (f : Leniency) (as : List (Branch Node)), ToldBranches moments f as
  | _, [], [], _ => .imp (fun _ => by rw [alikeBranches]) .nil
  | f, ⟨condition, result⟩ :: as, bs, lengths =>
    told_branches (told f condition) (told f result) (toldBranches f as) bs lengths

theorem toldConstraint : ∀ (f : Leniency) (a : ConstraintKind Node), ToldConstraint moments f a
  | _, .primaryKey _ _ => told_primaryKey
  | _, .unique _ => told_unique
  | _, .foreignKey _ => told_foreignKey
  | _, .notNull => told_notNull
  | _, .autoIncrement => told_autoIncrement
  | f, .default value => told_default (told f value)

end

end Node

end QueryTree
