import QueryTree.Node.Basic

/-! Recursion over query trees, one layer at a time.

`children` lists the children of a layer in the order in which they are written, `map` replaces each, and
`traverse` replaces them in that same order with an effect. `fold` replaces every layer from the leaves up
and is the only recursion over whole trees that changes them.
-/

set_option autoImplicit false

namespace QueryTree

namespace Binding

variable {α β : Type}

def map (f : α → β) (b : Binding α) : Binding β := { name := b.name, expr := f b.expr }

def traverse {m : Type → Type} [Monad m] (f : α → m β) (b : Binding α) : m (Binding β) :=
  return { name := b.name, expr := ← f b.expr }

end Binding

namespace OrderItem

variable {α β : Type}

def map (f : α → β) (o : OrderItem α) : OrderItem β := { expr := f o.expr, direction := o.direction }

def traverse {m : Type → Type} [Monad m] (f : α → m β) (o : OrderItem α) : m (OrderItem β) :=
  return { expr := ← f o.expr, direction := o.direction }

end OrderItem

namespace Branch

variable {α β : Type}

def children (b : Branch α) : List α := [b.condition, b.result]

def map (f : α → β) (b : Branch α) : Branch β := { condition := f b.condition, result := f b.result }

def traverse {m : Type → Type} [Monad m] (f : α → m β) (b : Branch α) : m (Branch β) :=
  return { condition := ← f b.condition, result := ← f b.result }

end Branch

namespace Select

variable {α β : Type}

def children (s : Select α) : List α :=
  s.columns.map (·.expr) ++ s.source.toList ++ s.filter.toList ++ s.groupBy ++ s.orderBy.map (·.expr) ++
    s.skip.toList ++ s.take.toList

def map (f : α → β) (s : Select α) : Select β :=
  { label := s.label
    columns := s.columns.map (·.map f)
    source := s.source.map f
    filter := s.filter.map f
    groupBy := s.groupBy.map f
    orderBy := s.orderBy.map (·.map f)
    distinct := s.distinct
    skip := s.skip.map f
    take := s.take.map f
    forUpdate := s.forUpdate
    type := s.type }

def traverse {m : Type → Type} [Monad m] (f : α → m β) (s : Select α) : m (Select β) := do
  let columns ← s.columns.mapM (·.traverse f)
  let source ← s.source.mapM f
  let filter ← s.filter.mapM f
  let groupBy ← s.groupBy.mapM f
  let orderBy ← s.orderBy.mapM (·.traverse f)
  let skip ← s.skip.mapM f
  let take ← s.take.mapM f
  return { label := s.label, columns, source, filter, groupBy, orderBy, distinct := s.distinct, skip, take
           forUpdate := s.forUpdate, type := s.type }

end Select

namespace Insert

variable {α β : Type}

def map (f : α → β) (i : Insert α) : Insert β :=
  { table := i.table, columns := i.columns, values := i.values.map f, returning := i.returning
    identityInsert := i.identityInsert }

def traverse {m : Type → Type} [Monad m] (f : α → m β) (i : Insert α) : m (Insert β) :=
  return { table := i.table, columns := i.columns, values := ← i.values.mapM f, returning := i.returning
           identityInsert := i.identityInsert }

end Insert

namespace Update

variable {α β : Type}

def children (u : Update α) : List α := u.assignments.map (·.expr) ++ u.filter.toList

def map (f : α → β) (u : Update α) : Update β :=
  { table := u.table, assignments := u.assignments.map (·.map f), filter := u.filter.map f
    identityInsert := u.identityInsert }

def traverse {m : Type → Type} [Monad m] (f : α → m β) (u : Update α) : m (Update β) := do
  let assignments ← u.assignments.mapM (·.traverse f)
  let filter ← u.filter.mapM f
  return { table := u.table, assignments, filter, identityInsert := u.identityInsert }

end Update

namespace CreateTable

variable {α β : Type}

def map (f : α → β) (t : CreateTable α) : CreateTable β :=
  { table := t.table, ifNotExists := t.ifNotExists, columns := t.columns.map f
    constraints := t.constraints.map f }

def traverse {m : Type → Type} [Monad m] (f : α → m β) (t : CreateTable α) : m (CreateTable β) := do
  let columns ← t.columns.mapM f
  let constraints ← t.constraints.mapM f
  return { table := t.table, ifNotExists := t.ifNotExists, columns, constraints }

end CreateTable

namespace CreateIndex

variable {α β : Type}

def map (f : α → β) (i : CreateIndex α) : CreateIndex β :=
  { name := i.name, table := i.table, columns := i.columns, unique := i.unique, clustered := i.clustered
    ifNotExists := i.ifNotExists, filter := i.filter.map f }

def traverse {m : Type → Type} [Monad m] (f : α → m β) (i : CreateIndex α) : m (CreateIndex β) :=
  return { name := i.name, table := i.table, columns := i.columns, unique := i.unique
           clustered := i.clustered, ifNotExists := i.ifNotExists, filter := ← i.filter.mapM f }

end CreateIndex

namespace ConstraintKind

variable {α β : Type}

def children : ConstraintKind α → List α
  | .default value => [value]
  | _ => []

def map (f : α → β) : ConstraintKind α → ConstraintKind β
  | .primaryKey columns clustered => .primaryKey columns clustered
  | .unique columns => .unique columns
  | .foreignKey key => .foreignKey key
  | .notNull => .notNull
  | .autoIncrement => .autoIncrement
  | .default value => .default (f value)

def traverse {m : Type → Type} [Monad m] (f : α → m β) : ConstraintKind α → m (ConstraintKind β)
  | .primaryKey columns clustered => pure (.primaryKey columns clustered)
  | .unique columns => pure (.unique columns)
  | .foreignKey key => pure (.foreignKey key)
  | .notNull => pure .notNull
  | .autoIncrement => pure .autoIncrement
  | .default value => return .default (← f value)

end ConstraintKind

namespace Shape

variable {α β : Type}

/-- The children in the order in which they are written. -/
def children : Shape α → List α
  | .table .. | .column _ | .constant .. | .placeholder .. | .parameter .. | .enumDefinition .. => []
  | .select query => query.children
  | .join _ left right condition => left :: right :: condition.toList
  | .aggregate _ argument _ _ => argument.toList
  | .groupAggregate _ inGroup asQuery _ => [inGroup, asQuery]
  | .subquery _ operand query _ => operand.toList ++ [query]
  | .call _ arguments _ => arguments
  | .window source orderBy => source :: orderBy.map (·.expr)
  | .binary _ left right _ => [left, right]
  | .unary _ operand _ => [operand]
  | .conditional branches otherwise _ => branches.flatMap Branch.children ++ otherwise.toList
  | .tuple elements => elements
  | .object _ keys => keys.map (·.expr)
  | .insert statement => statement.values
  | .update statement => statement.children
  | .delete _ _ filter => filter.toList
  | .createTable statement => statement.columns ++ statement.constraints
  | .alterTable _ actions => actions
  | .columnDefinition _ _ constraints => constraints
  | .constraint _ kind => kind.children
  | .constraintAction _ target => [target]
  | .createIndex statement => statement.filter.toList
  | .setCommand _ arguments => arguments
  | .statements list => list

def map (f : α → β) : Shape α → Shape β
  | .table name label type => .table name label type
  | .select query => .select (query.map f)
  | .join kind left right condition => .join kind (f left) (f right) (condition.map f)
  | .column c => .column c
  | .aggregate kind argument distinct type => .aggregate kind (argument.map f) distinct type
  | .groupAggregate label inGroup asQuery type => .groupAggregate label (f inGroup) (f asQuery) type
  | .subquery kind operand query type => .subquery kind (operand.map f) (f query) type
  | .call routine arguments type => .call routine (arguments.map f) type
  | .constant value type => .constant value type
  | .placeholder index type => .placeholder index type
  | .parameter name type => .parameter name type
  | .window source orderBy => .window (f source) (orderBy.map (·.map f))
  | .binary op left right type => .binary op (f left) (f right) type
  | .unary op operand type => .unary op (f operand) type
  | .conditional branches otherwise type => .conditional (branches.map (·.map f)) (otherwise.map f) type
  | .tuple elements => .tuple (elements.map f)
  | .object entity keys => .object entity (keys.map (·.map f))
  | .insert statement => .insert (statement.map f)
  | .update statement => .update (statement.map f)
  | .delete owner label filter => .delete owner label (filter.map f)
  | .createTable statement => .createTable (statement.map f)
  | .alterTable owner actions => .alterTable owner (actions.map f)
  | .columnDefinition name type constraints => .columnDefinition name type (constraints.map f)
  | .constraint name kind => .constraint name (kind.map f)
  | .constraintAction change target => .constraintAction change (f target)
  | .createIndex statement => .createIndex (statement.map f)
  | .enumDefinition name labels => .enumDefinition name labels
  | .setCommand name arguments => .setCommand name (arguments.map f)
  | .statements list => .statements (list.map f)

/-- Replace the children in order, with an effect. -/
def traverse {m : Type → Type} [Monad m] (f : α → m β) : Shape α → m (Shape β)
  | .table name label type => pure (.table name label type)
  | .select query => return .select (← query.traverse f)
  | .join kind left right condition => return .join kind (← f left) (← f right) (← condition.mapM f)
  | .column c => pure (.column c)
  | .aggregate kind argument distinct type => return .aggregate kind (← argument.mapM f) distinct type
  | .groupAggregate label inGroup asQuery type =>
    return .groupAggregate label (← f inGroup) (← f asQuery) type
  | .subquery kind operand query type => return .subquery kind (← operand.mapM f) (← f query) type
  | .call routine arguments type => return .call routine (← arguments.mapM f) type
  | .constant value type => pure (.constant value type)
  | .placeholder index type => pure (.placeholder index type)
  | .parameter name type => pure (.parameter name type)
  | .window source orderBy => return .window (← f source) (← orderBy.mapM (·.traverse f))
  | .binary op left right type => return .binary op (← f left) (← f right) type
  | .unary op operand type => return .unary op (← f operand) type
  | .conditional branches otherwise type =>
    return .conditional (← branches.mapM (·.traverse f)) (← otherwise.mapM f) type
  | .tuple elements => return .tuple (← elements.mapM f)
  | .object entity keys => return .object entity (← keys.mapM (·.traverse f))
  | .insert statement => return .insert (← statement.traverse f)
  | .update statement => return .update (← statement.traverse f)
  | .delete owner label filter => return .delete owner label (← filter.mapM f)
  | .createTable statement => return .createTable (← statement.traverse f)
  | .alterTable owner actions => return .alterTable owner (← actions.mapM f)
  | .columnDefinition name type constraints =>
    return .columnDefinition name type (← constraints.mapM f)
  | .constraint name kind => return .constraint name (← kind.traverse f)
  | .constraintAction change target => return .constraintAction change (← f target)
  | .createIndex statement => return .createIndex (← statement.traverse f)
  | .enumDefinition name labels => pure (.enumDefinition name labels)
  | .setCommand name arguments => return .setCommand name (← arguments.mapM f)
  | .statements list => return .statements (← list.mapM f)

theorem toList_map (f : α → β) (o : Option α) : (o.map f).toList = o.toList.map f := by
  cases o <;> rfl

@[simp] theorem children_map (f : α → β) (s : Shape α) : (s.map f).children = s.children.map f := by
  cases s with
  | constraint name kind => cases kind <;> simp [children, map, ConstraintKind.children, ConstraintKind.map]
  | _ =>
    simp [children, map, Select.children, Select.map, Update.children, Update.map, Insert.map,
      CreateTable.map, CreateIndex.map, Branch.children, Branch.map, Binding.map, OrderItem.map,
      Function.comp_def, List.map_flatMap, List.flatMap_map, toList_map]

theorem map_congr {f g : α → β} {s : Shape α} (same : ∀ c ∈ s.children, f c = g c) :
    s.map f = s.map g := by
  cases s with
  | constraint name kind =>
    cases kind <;> simp_all [children, map, ConstraintKind.children, ConstraintKind.map]
  | _ =>
    simp [children, Select.children, Update.children, Branch.children] at same
    simp [map, Select.map, Update.map, Insert.map, CreateTable.map, CreateIndex.map, Branch.map, Binding.map,
      OrderItem.map]
    try grind [Option.map_congr]

theorem map_id (s : Shape α) : s.map (fun c => c) = s := by
  cases s with
  | constraint name kind => cases kind <;> simp [map, ConstraintKind.map]
  | _ =>
    simp [map, Select.map, Update.map, Insert.map, CreateTable.map, CreateIndex.map, Branch.map, Binding.map,
      OrderItem.map]

theorem map_map {γ : Type} (g : β → γ) (f : α → β) (s : Shape α) :
    (s.map f).map g = s.map (fun c => g (f c)) := by
  cases s with
  | constraint name kind => cases kind <;> simp [map, ConstraintKind.map]
  | _ =>
    simp [map, Select.map, Update.map, Insert.map, CreateTable.map, CreateIndex.map, Branch.map, Binding.map,
      OrderItem.map, Function.comp_def]

@[simp] theorem kind_map (f : α → β) (s : Shape α) : (s.map f).kind = s.kind := by
  cases s <;> rfl

end Shape

namespace Node

section Fold

variable {β : Type} (step : Shape β → β)

mutual

/-- Rebuild from the leaves up: `step` sees each layer with its children already replaced. -/
def fold : Node → β
  | .mk s => step (foldShape s)

def foldShape : Shape Node → Shape β
  | .table name label type => .table name label type
  | .select query => .select (foldSelect query)
  | .join kind left right condition => .join kind (fold left) (fold right) (foldOption condition)
  | .column c => .column c
  | .aggregate kind argument distinct type => .aggregate kind (foldOption argument) distinct type
  | .groupAggregate label inGroup asQuery type => .groupAggregate label (fold inGroup) (fold asQuery) type
  | .subquery kind operand query type => .subquery kind (foldOption operand) (fold query) type
  | .call routine arguments type => .call routine (foldList arguments) type
  | .constant value type => .constant value type
  | .placeholder index type => .placeholder index type
  | .parameter name type => .parameter name type
  | .window source orderBy => .window (fold source) (foldOrder orderBy)
  | .binary op left right type => .binary op (fold left) (fold right) type
  | .unary op operand type => .unary op (fold operand) type
  | .conditional branches otherwise type => .conditional (foldBranches branches) (foldOption otherwise) type
  | .tuple elements => .tuple (foldList elements)
  | .object entity keys => .object entity (foldBindings keys)
  | .insert statement => .insert (foldInsert statement)
  | .update statement => .update (foldUpdate statement)
  | .delete owner label filter => .delete owner label (foldOption filter)
  | .createTable statement => .createTable (foldCreateTable statement)
  | .alterTable owner actions => .alterTable owner (foldList actions)
  | .columnDefinition name type constraints => .columnDefinition name type (foldList constraints)
  | .constraint name kind => .constraint name (foldConstraint kind)
  | .constraintAction change target => .constraintAction change (fold target)
  | .createIndex statement => .createIndex (foldCreateIndex statement)
  | .enumDefinition name labels => .enumDefinition name labels
  | .setCommand name arguments => .setCommand name (foldList arguments)
  | .statements list => .statements (foldList list)

def foldOption : Option Node → Option β
  | none => none
  | some n => some (fold n)

def foldList : List Node → List β
  | [] => []
  | n :: rest => fold n :: foldList rest

def foldBindings : List (Binding Node) → List (Binding β)
  | [] => []
  | ⟨name, expr⟩ :: rest => ⟨name, fold expr⟩ :: foldBindings rest

def foldOrder : List (OrderItem Node) → List (OrderItem β)
  | [] => []
  | ⟨expr, direction⟩ :: rest => ⟨fold expr, direction⟩ :: foldOrder rest

def foldBranches : List (Branch Node) → List (Branch β)
  | [] => []
  | ⟨condition, result⟩ :: rest => ⟨fold condition, fold result⟩ :: foldBranches rest

def foldSelect : Select Node → Select β
  | ⟨label, columns, source, filter, groupBy, orderBy, distinct, skip, take, forUpdate, type⟩ =>
    ⟨label, foldBindings columns, foldOption source, foldOption filter, foldList groupBy,
      foldOrder orderBy, distinct, foldOption skip, foldOption take, forUpdate, type⟩

def foldInsert : Insert Node → Insert β
  | ⟨owner, columns, values, returning, identityInsert⟩ =>
    ⟨owner, columns, foldList values, returning, identityInsert⟩

def foldUpdate : Update Node → Update β
  | ⟨owner, assignments, filter, identityInsert⟩ =>
    ⟨owner, foldBindings assignments, foldOption filter, identityInsert⟩

def foldCreateTable : CreateTable Node → CreateTable β
  | ⟨owner, ifNotExists, columns, constraints⟩ =>
    ⟨owner, ifNotExists, foldList columns, foldList constraints⟩

def foldCreateIndex : CreateIndex Node → CreateIndex β
  | ⟨name, owner, columns, unique, clustered, ifNotExists, filter⟩ =>
    ⟨name, owner, columns, unique, clustered, ifNotExists, foldOption filter⟩

def foldConstraint : ConstraintKind Node → ConstraintKind β
  | .primaryKey columns clustered => .primaryKey columns clustered
  | .unique columns => .unique columns
  | .foreignKey key => .foreignKey key
  | .notNull => .notNull
  | .autoIncrement => .autoIncrement
  | .default value => .default (fold value)

end

theorem foldOption_eq (o : Option Node) : foldOption step o = o.map (fold step) := by
  cases o <;> simp [foldOption]

theorem foldList_eq (ns : List Node) : foldList step ns = ns.map (fold step) := by
  induction ns with
  | nil => simp [foldList]
  | cons n rest ih => simp [foldList, ih]

theorem foldBindings_eq (bs : List (Binding Node)) :
    foldBindings step bs = bs.map (·.map (fold step)) := by
  induction bs with
  | nil => simp [foldBindings]
  | cons b rest ih => simp [foldBindings, ih, Binding.map]

theorem foldOrder_eq (items : List (OrderItem Node)) :
    foldOrder step items = items.map (·.map (fold step)) := by
  induction items with
  | nil => simp [foldOrder]
  | cons item rest ih => simp [foldOrder, ih, OrderItem.map]

theorem foldBranches_eq (bs : List (Branch Node)) :
    foldBranches step bs = bs.map (·.map (fold step)) := by
  induction bs with
  | nil => simp [foldBranches]
  | cons b rest ih => simp [foldBranches, ih, Branch.map]

theorem foldSelect_eq (s : Select Node) : foldSelect step s = s.map (fold step) := by
  cases s
  simp [foldSelect, Select.map, foldOption_eq, foldList_eq, foldBindings_eq, foldOrder_eq]

theorem foldInsert_eq (i : Insert Node) : foldInsert step i = i.map (fold step) := by
  cases i
  simp [foldInsert, Insert.map, foldList_eq]

theorem foldUpdate_eq (u : Update Node) : foldUpdate step u = u.map (fold step) := by
  cases u
  simp [foldUpdate, Update.map, foldOption_eq, foldBindings_eq]

theorem foldCreateTable_eq (t : CreateTable Node) : foldCreateTable step t = t.map (fold step) := by
  cases t
  simp [foldCreateTable, CreateTable.map, foldList_eq]

theorem foldCreateIndex_eq (i : CreateIndex Node) : foldCreateIndex step i = i.map (fold step) := by
  cases i
  simp [foldCreateIndex, CreateIndex.map, foldOption_eq]

theorem foldConstraint_eq (k : ConstraintKind Node) : foldConstraint step k = k.map (fold step) := by
  cases k <;> simp [foldConstraint, ConstraintKind.map]

theorem foldShape_eq (s : Shape Node) : foldShape step s = s.map (fold step) := by
  cases s <;>
    simp [foldShape, Shape.map, foldOption_eq, foldList_eq, foldBindings_eq, foldOrder_eq, foldBranches_eq,
      foldSelect_eq, foldInsert_eq, foldUpdate_eq, foldCreateTable_eq, foldCreateIndex_eq,
      foldConstraint_eq]

theorem fold_mk (s : Shape Node) : fold step (.mk s) = step (s.map (fold step)) := by
  rw [fold, foldShape_eq]

end Fold

section Induction

variable {P : Node → Prop}

/-- Holds of a node as soon as it holds of its children. -/
def Ascends (P : Node → Prop) : Prop := ∀ s : Shape Node, (∀ c ∈ s.children, P c) → P (.mk s)

mutual

/-- Induction on a tree: a property of all children of a layer passes to the node. -/
theorem inductNode (step : ∀ s : Shape Node, (∀ c ∈ s.children, P c) → P (.mk s)) : ∀ n : Node, P n
  | .mk s => step s (inductShape step s)

theorem inductShape (step : Ascends P) : ∀ s : Shape Node, ∀ c ∈ s.children, P c
  | .table .. | .column _ | .constant .. | .placeholder .. | .parameter .. | .enumDefinition .. => by
    simp [Shape.children]
  | .select ⟨_, columns, source, filter, groupBy, orderBy, _, skip, take, _, _⟩ => by
    have := inductBindings step columns
    have := inductOption step source
    have := inductOption step filter
    have := inductList step groupBy
    have := inductOrder step orderBy
    have := inductOption step skip
    have := inductOption step take
    grind [Shape.children, Select.children]
  | .join _ left right condition => by
    have := inductNode step left
    have := inductNode step right
    have := inductOption step condition
    grind [Shape.children]
  | .aggregate _ argument _ _ => inductOption step argument
  | .groupAggregate _ inGroup asQuery _ => by
    have := inductNode step inGroup
    have := inductNode step asQuery
    grind [Shape.children]
  | .subquery _ operand query _ => by
    have := inductOption step operand
    have := inductNode step query
    grind [Shape.children]
  | .call _ arguments _ => inductList step arguments
  | .window source orderBy => by
    have := inductNode step source
    have := inductOrder step orderBy
    grind [Shape.children]
  | .binary _ left right _ => by
    have := inductNode step left
    have := inductNode step right
    grind [Shape.children]
  | .unary _ operand _ => by
    have := inductNode step operand
    grind [Shape.children]
  | .conditional branches otherwise _ => by
    have := inductBranches step branches
    have := inductOption step otherwise
    grind [Shape.children]
  | .tuple elements => inductList step elements
  | .object _ keys => inductBindings step keys
  | .insert ⟨_, _, values, _, _⟩ => inductList step values
  | .update ⟨_, assignments, filter, _⟩ => by
    have := inductBindings step assignments
    have := inductOption step filter
    grind [Shape.children, Update.children]
  | .delete _ _ filter => inductOption step filter
  | .createTable ⟨_, _, columns, constraints⟩ => by
    have := inductList step columns
    have := inductList step constraints
    grind [Shape.children]
  | .alterTable _ actions => inductList step actions
  | .columnDefinition _ _ constraints => inductList step constraints
  | .constraint _ (.default value) => by
    have := inductNode step value
    grind [Shape.children, ConstraintKind.children]
  | .constraint _ (.primaryKey ..) | .constraint _ (.unique _) | .constraint _ (.foreignKey _)
  | .constraint _ .notNull | .constraint _ .autoIncrement => by
    simp [Shape.children, ConstraintKind.children]
  | .constraintAction _ target => by
    have := inductNode step target
    grind [Shape.children]
  | .createIndex ⟨_, _, _, _, _, _, filter⟩ => inductOption step filter
  | .setCommand _ arguments => inductList step arguments
  | .statements list => inductList step list

theorem inductOption (step : Ascends P) : ∀ o : Option Node, ∀ c ∈ o.toList, P c
  | none => by simp
  | some n => by
    have := inductNode step n
    grind

theorem inductList (step : Ascends P) : ∀ ns : List Node, ∀ c ∈ ns, P c
  | [] => by simp
  | n :: rest => by
    have := inductNode step n
    have := inductList step rest
    grind

theorem inductBindings (step : Ascends P) : ∀ bs : List (Binding Node), ∀ c ∈ bs.map (·.expr), P c
  | [] => by simp
  | ⟨_, expr⟩ :: rest => by
    have := inductNode step expr
    have := inductBindings step rest
    grind

theorem inductOrder (step : Ascends P) : ∀ items : List (OrderItem Node), ∀ c ∈ items.map (·.expr), P c
  | [] => by simp
  | ⟨expr, _⟩ :: rest => by
    have := inductNode step expr
    have := inductOrder step rest
    grind

theorem inductBranches (step : Ascends P) : ∀ bs : List (Branch Node), ∀ c ∈ bs.flatMap Branch.children, P c
  | [] => by simp
  | ⟨condition, result⟩ :: rest => by
    have := inductNode step condition
    have := inductNode step result
    have := inductBranches step rest
    grind [Branch.children]

end

end Induction

/-- Like `fold`, with each child's node beside what it was replaced by. -/
def para {β : Type} (step : Shape (Node × β) → β) (n : Node) : β :=
  (fold (fun s => (Node.mk (s.map Prod.fst), step s)) n).2

theorem para_mk {β : Type} (step : Shape (Node × β) → β) (s : Shape Node) :
    para step (.mk s) = step (s.map fun c => (c, para step c)) := by
  have keeps : ∀ n, (fold (fun s => (Node.mk (s.map Prod.fst), step s)) n).1 = n := by
    intro n
    induction n using inductNode with
    | step s ih =>
      rw [fold_mk, Shape.map_map, Shape.map_congr ih, Shape.map_id]
  rw [para, fold_mk]
  refine congrArg step (Shape.map_congr fun c _ => ?_)
  rw [para, Prod.ext_iff]
  exact ⟨keeps c, rfl⟩

/-- Replace every node, the children of each before it. -/
def mapUp (f : Node → Node) : Node → Node := fold fun s => f (.mk s)

theorem mapUp_mk (f : Node → Node) (s : Shape Node) :
    mapUp f (.mk s) = f (.mk (s.map (mapUp f))) := fold_mk _ _

/-- The node and everything below it, each node before its children. -/
def subtrees : Node → List Node := para fun s => .mk (s.map Prod.fst) :: s.children.flatMap Prod.snd

theorem subtrees_mk (s : Shape Node) : (Node.mk s).subtrees = .mk s :: s.children.flatMap subtrees := by
  unfold subtrees
  rw [para_mk]
  simp only [Shape.map_map, Shape.map_id, Shape.children_map, List.flatMap_map]

end Node

end QueryTree
