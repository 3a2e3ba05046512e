import QueryTree.Node.Alike
import QueryTree.Proofs.Node.Traversal

/-! What a layer has beside its children.

`fields` lists, kind by kind, what a layer holds itself and which of its places for children are filled. It owes nothing
to the walks over a layer, and two layers of one kind that agree in it and in their children are the same. So there is
only one layer that a walk can come to which keeps the fields and replaces the children in their order.
-/

set_option autoImplicit false

namespace QueryTree

variable {α β σ : Type}

/-! ### Fields -/

def Select.fields (q : Select α) : List Mark :=
  [.text q.label, .texts (q.columns.map (·.name)), .flag q.source.isSome, .flag q.filter.isSome,
    .number q.groupBy.length, .flag q.distinct, .flag q.skip.isSome, .flag q.take.isSome, .flag q.forUpdate,
    .type q.type] ++ q.orderBy.map fun o => .direction o.direction

def Update.fields (u : Update α) : List Mark :=
  [.text u.table, .texts (u.assignments.map (·.name)), .flag u.filter.isSome, .flag u.identityInsert]

def ConstraintKind.fields : ConstraintKind α → List Mark
  | .primaryKey columns clustered => [.tag 0, .texts columns, .flag? clustered]
  | .unique columns => [.tag 1, .texts columns]
  | .foreignKey key =>
    [.tag 2, .texts key.columns, .text key.referencedTable, .texts key.referencedColumns, .action key.onDelete,
      .action key.onUpdate]
  | .notNull => [.tag 3]
  | .autoIncrement => [.tag 4]
  | .default _ => [.tag 5]

namespace Shape

/-- What a layer of its kind holds itself. -/
def fields : Shape α → List Mark
  | .table name label type => [.text name, .text label, .type type]
  | .select query => query.fields
  | .join kind _ _ condition => [.join kind, .flag condition.isSome]
  | .column c => [.column c.label c.name, .type c.type]
  | .aggregate kind argument distinct type => [.aggregate kind, .flag argument.isSome, .flag distinct, .type type]
  | .groupAggregate label _ _ type => [.text label, .type type]
  | .subquery kind operand _ type => [.subquery kind, .flag operand.isSome, .type type]
  | .call routine _ type => [.routine routine, .type type]
  | .constant value type => [.value value, .type type]
  | .placeholder index type => [.number index, .type type]
  | .parameter name type => [.text name, .type type]
  | .window _ orderBy => orderBy.map fun o => .direction o.direction
  | .binary op _ _ type => [.binary op, .type type]
  | .unary op _ type => [.unary op, .type type]
  | .conditional branches otherwise type => [.number branches.length, .flag otherwise.isSome, .type type]
  | .tuple _ => []
  | .object entity keys => [.text entity, .texts (keys.map (·.name))]
  | .insert i => [.text i.table, .texts i.columns, .texts i.returning, .flag i.identityInsert]
  | .update statement => statement.fields
  | .delete owner label filter => [.text owner, .name? label, .flag filter.isSome]
  | .createTable t => [.text t.table, .flag t.ifNotExists, .number t.columns.length]
  | .alterTable owner _ => [.text owner]
  | .columnDefinition name type _ => [.text name, .type type]
  | .constraint name kind => .name? name :: kind.fields
  | .constraintAction change _ => [.change change]
  | .createIndex i =>
    [.text i.name, .text i.table, .indexed i.columns, .flag i.unique, .flag i.clustered, .flag i.ifNotExists,
      .flag i.filter.isSome]
  | .enumDefinition name labels => [.text name, .texts labels]
  | .setCommand name _ => [.text name]
  | .statements _ => []

theorem fields_map (f : α → β) (s : Shape α) : (s.map f).fields = s.fields := by
  cases s with
  | constraint name kind => cases kind <;> rfl
  | _ =>
    simp [fields, map, Select.fields, Select.map, Update.fields, Update.map, Insert.map, CreateTable.map,
      CreateIndex.map, Binding.map, OrderItem.map]

end Shape

/-! ### Fields and children -/

theorem bindings_ext {as bs : List (Binding α)} (names : as.map (·.name) = bs.map (·.name))
    (exprs : as.map (·.expr) = bs.map (·.expr)) : as = bs := by
  induction as generalizing bs with
  | nil => exact (List.map_eq_nil_iff.mp names.symm).symm
  | cons a as ih =>
    cases bs with
    | nil => cases names
    | cons b bs =>
      obtain ⟨name, names⟩ := List.cons.inj names
      obtain ⟨expr, exprs⟩ := List.cons.inj exprs
      have same : a = b := by cases a; cases b; cases name; cases expr; rfl
      rw [ih names exprs, same]

theorem orderBy_ext {as bs : List (OrderItem α)}
    (directions : (as.map fun o => Mark.direction o.direction) = bs.map fun o => .direction o.direction)
    (exprs : as.map (·.expr) = bs.map (·.expr)) : as = bs := by
  induction as generalizing bs with
  | nil => exact (List.map_eq_nil_iff.mp exprs.symm).symm
  | cons a as ih =>
    cases bs with
    | nil => cases exprs
    | cons b bs =>
      obtain ⟨direction, directions⟩ := List.cons.inj directions
      obtain ⟨expr, exprs⟩ := List.cons.inj exprs
      have same : a = b := by cases a; cases b; cases expr; cases Mark.direction.inj direction; rfl
      rw [ih directions exprs, same]

theorem branches_ext {as bs : List (Branch α)} (children : as.flatMap Branch.children = bs.flatMap Branch.children) :
    as = bs := by
  induction as generalizing bs with
  | nil =>
    cases bs with
    | nil => rfl
    | cons b bs => cases children
  | cons a as ih =>
    cases bs with
    | nil => cases children
    | cons b bs =>
      obtain ⟨condition, rest⟩ := List.cons.inj children
      obtain ⟨result, rest⟩ := List.cons.inj rest
      have same : a = b := by cases a; cases b; cases condition; cases result; rfl
      rw [ih rest, same]

theorem toList_same {o p : Option α} : o.toList = p.toList ↔ o = p :=
  ⟨fun same => by simpa using congrArg List.head? same, congrArg _⟩

theorem split_option {as bs : List α} {o p : Option α} (filled : o.isSome = p.isSome)
    (same : as ++ o.toList = bs ++ p.toList) : as = bs ∧ o = p := by
  have length : o.toList.length = p.toList.length := by cases o <;> cases p <;> first | rfl | cases filled
  obtain ⟨before, last⟩ := List.append_inj' same length
  exact ⟨before, toList_same.mp last⟩

theorem Select.ext_fields {p q : Select α} (fields : p.fields = q.fields) (children : p.children = q.children) :
    p = q := by
  obtain ⟨own, order⟩ := List.append_inj fields rfl
  simp only [List.cons.injEq, Mark.text.injEq, Mark.texts.injEq, Mark.flag.injEq, Mark.number.injEq, Mark.type.injEq] at own
  obtain ⟨label, names, source, filter, groups, distinct, skip, take, forUpdate, type, -⟩ := own
  -- The children are taken apart from the last; the fields tell how many stand at each place.
  obtain ⟨children, sameTake⟩ := split_option take children
  obtain ⟨children, sameSkip⟩ := split_option skip children
  have orders : (p.orderBy.map (·.expr)).length = (q.orderBy.map (·.expr)).length := by
    simpa using congrArg List.length order
  obtain ⟨children, sameOrder⟩ := List.append_inj' children orders
  obtain ⟨children, sameGroups⟩ := List.append_inj' children groups
  obtain ⟨children, sameFilter⟩ := split_option filter children
  obtain ⟨sameColumns, sameSource⟩ := split_option source children
  obtain ⟨⟩ := p
  obtain ⟨⟩ := q
  obtain rfl := bindings_ext names sameColumns
  obtain rfl := orderBy_ext order sameOrder
  simp_all

theorem Update.ext_fields {u v : Update α} (fields : u.fields = v.fields) (children : u.children = v.children) :
    u = v := by
  simp only [Update.fields, List.cons.injEq, Mark.text.injEq, Mark.texts.injEq, Mark.flag.injEq] at fields
  obtain ⟨owner, names, filter, identityInsert, -⟩ := fields
  obtain ⟨exprs, sameFilter⟩ := split_option filter children
  obtain ⟨⟩ := u
  obtain ⟨⟩ := v
  obtain rfl := bindings_ext names exprs
  simp_all

theorem ConstraintKind.ext_fields {k l : ConstraintKind α} (fields : k.fields = l.fields)
    (children : k.children = l.children) : k = l := by
  cases k with
  | foreignKey key =>
    cases l with
    | foreignKey other =>
      obtain ⟨⟩ := key
      obtain ⟨⟩ := other
      simp_all [ConstraintKind.fields]
    | _ => simp [ConstraintKind.fields] at fields
  | _ => cases l <;> simp_all [ConstraintKind.fields, ConstraintKind.children]

namespace Shape

/-- Kind, fields and children are all there is to a layer. -/
theorem ext_fields {s t : Shape α} (kind : s.kind = t.kind) (own : s.fields = t.fields)
    (children : s.children = t.children) : s = t := by
  cases s <;> cases t <;> cases kind
  -- First the kinds with several lists or optional children in a row, or with names beside the children.
  case select.select.refl p q => rw [Select.ext_fields own children]
  case update.update.refl u v => rw [Update.ext_fields own children]
  case constraint.constraint.refl name k other l =>
    obtain ⟨sameName, own⟩ := List.cons.inj own
    rw [Mark.name?.inj sameName, ConstraintKind.ext_fields own children]
  case window.window.refl source items other others =>
    obtain ⟨sameSource, exprs⟩ := List.cons.inj children
    rw [sameSource, orderBy_ext own exprs]
  case object.object.refl entity keys other others =>
    simp only [fields, List.cons.injEq, Mark.text.injEq, Mark.texts.injEq] at own
    rw [own.1, bindings_ext own.2.1 children]
  case conditional.conditional.refl branches otherwise type others fallback other =>
    simp only [fields, List.cons.injEq, Mark.flag.injEq, Mark.type.injEq] at own
    obtain ⟨-, filled, sameType, -⟩ := own
    obtain ⟨same, sameOtherwise⟩ := split_option filled children
    rw [branches_ext same, sameOtherwise, sameType]
  case createTable.createTable.refl t u =>
    simp only [fields, List.cons.injEq, Mark.text.injEq, Mark.flag.injEq, Mark.number.injEq] at own
    obtain ⟨owner, missing, count, -⟩ := own
    obtain ⟨columns, constraints⟩ := List.append_inj children count
    obtain ⟨⟩ := t
    obtain ⟨⟩ := u
    simp_all
  case subquery.subquery.refl kind operand query type kind' operand' query' type' =>
    obtain ⟨before, last⟩ := List.append_inj' children rfl
    simp_all [fields, toList_same]
  -- Of the others only the records have to be opened.
  case column.column.refl c d =>
    obtain ⟨⟩ := c
    obtain ⟨⟩ := d
    simp_all [fields]
  case insert.insert.refl i j =>
    obtain ⟨⟩ := i
    obtain ⟨⟩ := j
    simp_all [fields, Shape.children]
  case createIndex.createIndex.refl i j =>
    obtain ⟨⟩ := i
    obtain ⟨⟩ := j
    simp_all [fields, Shape.children, toList_same]
  all_goals simp_all [fields, Shape.children, toList_same]

end Shape

/-! ### Walks over a layer -/

/-- A layer is another with the children replaced by these, in their order. -/
structure Shape.Refilled (s : Shape α) (news : List β) (made : Shape β) : Prop where
  kind : made.kind = s.kind
  fields : made.fields = s.fields
  children : made.children = news

namespace Shape

theorem refilled_map (s : Shape α) (g : α → β) : s.Refilled (s.children.map g) (s.map g) :=
  ⟨kind_map g s, fields_map g s, children_map g s⟩

theorem Refilled.unique {s : Shape α} {news : List β} {made other : Shape β} (first : s.Refilled news made)
    (second : s.Refilled news other) : made = other :=
  ext_fields (first.kind.trans second.kind.symm) (first.fields.trans second.fields.symm)
    (first.children.trans second.children.symm)

variable (visit : α → StateM σ β) (s : Shape α) (x : σ)

theorem refilled_traverse : s.Refilled (s.children.mapM visit x).1 (s.traverse visit x).1 where
  kind := by rw [← replaced_snd, kind_map, ← kind_map Prod.fst, replaced_fst]
  fields := by rw [← replaced_snd, fields_map, ← fields_map Prod.fst, replaced_fst]
  children := congrArg (fun c => (c x).1) (children_traverse visit s)

theorem state_traverse : (s.traverse visit x).2 = (s.children.mapM visit x).2 :=
  congrArg (fun c => (c x).2) (children_traverse visit s)

end Shape

/-- Replaces a child and notes that it was its turn. -/
def noting (g : α → β) (a : α) : StateM (List α) β := fun visited => (g a, visited ++ [a])

theorem noting_list (g : α → β) (l : List α) (visited : List α) :
    l.mapM (noting g) visited = (l.map g, visited ++ l) := by
  induction l generalizing visited with
  | nil => simp; rfl
  | cons a rest ih =>
    rw [List.mapM_cons]
    show (let next := rest.mapM (noting g) (visited ++ [a]); (g a :: next.1, next.2)) = _
    rw [ih]
    simp

/-- A walk that replaces the children of a node goes through them in the order in which they are listed, and neither
drops nor moves one, nor touches what the node holds itself. -/
theorem Node.traversals_agree (n : Node) (g : Node → Node) :
    (∀ made, n.shape.Refilled (n.shape.children.map g) made ↔ made = n.shape.map g) ∧
      Node.mk (n.shape.map id) = n ∧
      (∀ visited, n.shape.traverse (noting g) visited = (n.shape.map g, visited ++ n.shape.children)) ∧
      ∀ (σ : Type) (visit : Node → StateM σ Node) (x : σ),
        n.shape.Refilled (n.shape.children.mapM visit x).1 (n.shape.traverse visit x).1 ∧
          (n.shape.traverse visit x).2 = (n.shape.children.mapM visit x).2 := by
  have refilled := n.shape.refilled_map g
  refine ⟨fun made => ⟨fun other => other.unique refilled, fun same => same ▸ refilled⟩, ?_, fun visited => ?_, ?_⟩
  · rw [show n.shape.map id = n.shape from Shape.map_id n.shape, Node.mk_shape]
  · have walked := n.shape.refilled_traverse (noting g) visited
    have visits := n.shape.state_traverse (noting g) visited
    rw [noting_list] at walked visits
    exact Prod.ext (walked.unique refilled) visits
  · exact fun σ visit x => ⟨n.shape.refilled_traverse visit x, n.shape.state_traverse visit x⟩

end QueryTree
