import QueryTree.Dialect.Basic
import QueryTree.Proofs.Node.Parts

/-! What can be written, and where.

A node stands in a query as an expression, as a source of rows or as a query of its own, and the layer above it tells
which. It can be written there when the dialect has words for the layer in that role and all that the layer writes can
be written. Not all of it is: nobody reads the operand of a scalar subquery, for one, so anything may stand there.
-/

set_option autoImplicit false

namespace QueryTree

inductive Role where
  | expression
  | source
  /-- A query without parentheses. -/
  | query
  /-- In the tree, but not in the text. -/
  | unwritten
  deriving DecidableEq, Repr

/-- Nothing in an unwritten node is written. -/
def Role.within : Role → Role → Role
  | .unwritten, _ => .unwritten
  | _, inner => inner

theorem Role.within_source {r : Role} (written : r ≠ .unwritten) : r.within .source = .source := by
  cases r <;> first | rfl | exact absurd rfl written

/-- What is asked of a tree that is to be written. -/
structure Draft where
  dialect : Dialect
  /-- A distinct select that skips rows loses its order before it is written. -/
  paged : Bool
  /-- Which form of an aggregate over a group is written is left open. -/
  eitherForm : Bool
  /-- The labels of what is not written, where references are followed: what is written is to do without them. -/
  lost : Option (String → Bool)

/-- What is asked of a tree as it is written, wherever its labels are from. -/
def Dialect.draft (d : Dialect) (eitherForm : Bool) : Draft := { dialect := d, paged := false, eitherForm, lost := none }

namespace Draft

variable (v : Draft)

/-- May be the label of something written. -/
def shows (label : String) : Bool := v.lost.all fun hides => !hides label

/-- May be the label of something that cannot be written. -/
def loses (label : String) : Bool := v.lost.all fun hides => hides label

def order {α : Type} (q : Select α) : Role :=
  if v.paged && q.distinct && q.skip.isSome then .unwritten else .expression

def form : Role := if v.eitherForm then .unwritten else .expression

variable {v}

theorem loses_of_shows {hides : String → Bool} (known : v.lost = some hides) {label : String}
    (shown : v.shows label = true) : v.loses label = false := by
  simpa [shows, loses, known] using shown

theorem shows_of_loses {hides : String → Bool} (known : v.lost = some hides) {label : String}
    (kept : v.loses label = false) : v.shows label = true := by
  simpa [shows, loses, known] using kept

end Draft

/-- So many arguments make a call that the dialect has words for. -/
def Dialect.calls (d : Dialect) (routine : Routine) (count : Nat) (type : DataType) : Bool :=
  match routine with
  | .isIn => 2 ≤ count
  | .cast => count = 1 && (d.columnType type.underlying).isSome
  | routine => (d.routine routine).any fun s => !s.isOperator || 0 < count

/-! ### Layers -/

section Layers

variable {α β : Type} {v : Draft}

/-- A wildcard is written without what stands for it in the tree. -/
def Binding.role (b : Binding α) : Role := if b.isWildcard then .unwritten else .expression

def Select.roles (v : Draft) (q : Select α) : List (Role × α) :=
  q.columns.map (fun b => (b.role, b.expr)) ++
    q.source.toList.map (Prod.mk .source) ++ q.filter.toList.map (Prod.mk .expression) ++
    q.groupBy.map (Prod.mk .expression) ++ q.orderBy.map (fun o => (v.order q, o.expr)) ++
    q.skip.toList.map (Prod.mk .expression) ++ q.take.toList.map (Prod.mk .expression)

theorem Select.forall_roles {q : Select α} {P : Role → α → Prop} : (∀ x ∈ q.roles v, P x.1 x.2) ↔
    (∀ b ∈ q.columns, P b.role b.expr) ∧ (∀ s ∈ q.source, P .source s) ∧
      (∀ f ∈ q.filter, P .expression f) ∧ (∀ g ∈ q.groupBy, P .expression g) ∧ (∀ o ∈ q.orderBy, P (v.order q) o.expr) ∧
      (∀ n ∈ q.skip, P .expression n) ∧ ∀ n ∈ q.take, P .expression n := by
  simp only [roles, List.forall_mem_append, List.forall_mem_map, Option.mem_toList, Option.mem_def, and_assoc]

namespace Shape

/-- The children of a layer in some role, with theirs. An unwritten select that goes by a label of what is written may
still be read from there, and an aggregate may still be lifted to one. -/
def roles (v : Draft) (r : Role) : Shape α → List (Role × α)
  | .select q => if r = .unwritten ∧ v.loses q.label then q.children.map (Prod.mk .unwritten) else q.roles v
  | .groupAggregate label inGroup asQuery _ =>
    if r = .unwritten then [(if v.loses label then .unwritten else .expression, inGroup), (.unwritten, asQuery)]
    else [(v.form, inGroup), (v.form, asQuery)]
  | .join _ left right condition =>
    (r.within .source, left) :: (r.within .source, right) :: condition.toList.map (Prod.mk (r.within .expression))
  | .subquery kind operand query _ =>
    operand.toList.map (Prod.mk (r.within (if kind = .isIn then .expression else .unwritten))) ++
      [(r.within .query, query)]
  | s => s.children.map (Prod.mk (r.within .expression))

theorem roles_select {q : Select α} {r : Role} (written : r ≠ .unwritten) : (Shape.select q).roles v r = q.roles v :=
  if_neg (by simp [written])

theorem roles_groupAggregate {label : String} {inGroup asQuery : α} {type : DataType} {r : Role}
    (written : r ≠ .unwritten) :
    (Shape.groupAggregate label inGroup asQuery type).roles v r = [(v.form, inGroup), (v.form, asQuery)] := if_neg written

/-- The dialect has words for the layer in the role. -/
def fits (v : Draft) : Role → Shape α → Bool
  | .unwritten, _ => true
  | _, .select q => v.shows q.label
  | .source, .table _ label _ => v.shows label
  | .source, .join kind .. => (v.dialect.joinKeyword kind).isSome
  | .expression, .column c => v.shows c.label
  | .expression, .groupAggregate label .. => v.shows label
  | .expression, .subquery kind operand _ _ => kind ≠ .isIn || operand.isSome
  | .expression, .call routine arguments type => v.dialect.calls routine arguments.length type
  | .expression, .constant .. | .expression, .placeholder .. | .expression, .parameter .. | .expression, .binary ..
  | .expression, .unary .. | .expression, .aggregate .. | .expression, .window .. | .expression, .conditional .. => true
  | _, _ => false

/-- Is written as a statement, which is no part of a query. -/
def isStatement : Shape α → Bool
  | .insert _ | .update _ | .delete .. | .createTable _ | .alterTable .. | .createIndex _ | .enumDefinition ..
  | .setCommand .. | .statements _ => true
  | _ => false

theorem roles_snd (r : Role) (s : Shape α) : (s.roles v r).map Prod.snd = s.children := by
  have same (f : α → Role × α) (every : ∀ c, (f c).2 = c) (cs : List α) : (cs.map f).map Prod.snd = cs := by
    simp [Function.comp_def, every]
  cases s with
  | select q =>
    simp only [roles]
    split
    · exact same _ (fun _ => rfl) _
    · simp [Select.roles, children, Select.children, Function.comp_def]
  | groupAggregate label inGroup asQuery type =>
    simp only [roles]
    split <;> rfl
  | join | subquery => simp [roles, children, Function.comp_def]
  | _ => exact same _ (fun _ => rfl) _

theorem roles_child {r : Role} {s : Shape α} {x : Role × α} (member : x ∈ s.roles v r) : x.2 ∈ s.children :=
  roles_snd r s ▸ List.mem_map_of_mem member

theorem exists_role (r : Role) {s : Shape α} {c : α} (child : c ∈ s.children) : ∃ r', (r', c) ∈ s.roles v r := by
  rw [← roles_snd r s] at child
  obtain ⟨x, member, rfl⟩ := List.mem_map.mp child
  exact ⟨x.1, member⟩

theorem roles_map (f : α → β) (r : Role) (s : Shape α) : (s.map f).roles v r = (s.roles v r).map (Prod.map id f) := by
  have rest (s : Shape α) (r : Role) :
      (s.map f).children.map (Prod.mk r) = (s.children.map (Prod.mk r)).map (Prod.map id f) := by
    simp [Function.comp_def]
  cases s with
  | select q =>
    simp only [roles, map]
    rw [show (q.map f).label = q.label from rfl]
    split
    · exact rest (.select q) .unwritten
    · simp [Select.roles, Select.map, Draft.order, toList_map, Function.comp_def, Binding.map, Binding.role,
        Binding.isWildcard, OrderItem.map]
  | groupAggregate label inGroup asQuery type =>
    simp only [roles, map]
    split <;> rfl
  | join | subquery => simp [roles, map, toList_map, Function.comp_def]
  | _ => exact rest _ _

def isUniform : Shape α → Bool
  | .select _ | .groupAggregate .. | .join .. | .subquery .. => false
  | _ => true

theorem roles_uniform {s : Shape α} (uniform : s.isUniform = true) (r : Role) :
    s.roles v r = s.children.map (Prod.mk (r.within .expression)) := by
  cases s <;> first | rfl | cases uniform

theorem roles_unwritten (free : v.lost = none) (s : Shape α) :
    s.roles v .unwritten = s.children.map (Prod.mk .unwritten) := by
  have loses (label : String) : v.loses label = true := by simp [Draft.loses, free]
  cases s <;> simp [roles, loses, Role.within, children]

theorem fits_map (f : α → β) (r : Role) (s : Shape α) : (s.map f).fits v r = s.fits v r := by
  cases r <;> cases s <;> simp [fits, map, Select.map]

end Shape

end Layers

/-! ### Trees -/

namespace Node

variable {v : Draft} {r : Role} {s : Shape Node} {q : Select Node} {n : Node}

def isPart (n : Node) : Bool := !n.shape.isStatement

theorem isPart_map (f : Node → Node) : (Node.mk (s.map f)).isPart = (Node.mk s).isPart := by
  cases s <;> rfl

def Writable (v : Draft) (r : Role) (n : Node) : Prop :=
  n.fold (fun (s : Shape (Role → Prop)) r => s.fits v r = true ∧ ∀ x ∈ s.roles v r, x.2 x.1) r

theorem writable_mk : (Node.mk s).Writable v r ↔ s.fits v r = true ∧ ∀ x ∈ s.roles v r, x.2.Writable v x.1 := by
  unfold Writable
  rw [fold_mk, Shape.fits_map, Shape.roles_map, List.forall_mem_map]
  rfl

end Node

def Select.Written (v : Draft) (q : Select Node) : Prop := ∀ x ∈ q.roles v, x.2.Writable v x.1

theorem Select.written_iff {v : Draft} {q : Select Node} : q.Written v ↔
    (∀ b ∈ q.columns, b.expr.Writable v b.role) ∧
      (∀ s ∈ q.source, s.Writable v .source) ∧ (∀ f ∈ q.filter, f.Writable v .expression) ∧
      (∀ g ∈ q.groupBy, g.Writable v .expression) ∧ (∀ o ∈ q.orderBy, o.expr.Writable v (v.order q)) ∧
      (∀ n ∈ q.skip, n.Writable v .expression) ∧ ∀ n ∈ q.take, n.Writable v .expression :=
  forall_roles (P := fun r (n : Node) => n.Writable v r)

namespace Node

variable {v w : Draft} {r : Role} {s : Shape Node} {q : Select Node} {n : Node}

theorem writable_select (written : r ≠ .unwritten) :
    (Node.select q).Writable v r ↔ v.shows q.label = true ∧ q.Written v := by
  rw [writable_mk, Shape.roles_select written]
  cases r <;> first | rfl | exact absurd rfl written

theorem writable_lost (lost : v.loses q.label = true) :
    (Node.select q).Writable v .unwritten ↔ ∀ c ∈ q.children, c.Writable v .unwritten := by
  rw [writable_mk, Shape.roles, if_pos ⟨rfl, lost⟩, List.forall_mem_map]
  exact and_iff_right rfl

theorem writable_kept (kept : v.loses q.label = false) :
    (Node.select q).Writable v .unwritten ↔ q.Written v := by
  rw [writable_mk, Shape.roles, if_neg (by simp [kept])]
  exact and_iff_right rfl

theorem writable_uniform (uniform : s.isUniform = true) :
    (Node.mk s).Writable v r ↔ s.fits v r = true ∧ ∀ c ∈ s.children, c.Writable v (r.within .expression) := by
  rw [writable_mk, Shape.roles_uniform uniform, List.forall_mem_map]

theorem writable_column {c : Column} :
    (Node.column c).Writable v r ↔ r = .unwritten ∨ r = .expression ∧ v.shows c.label = true := by
  refine (writable_uniform rfl).trans ((and_iff_left fun _ member => absurd member List.not_mem_nil).trans ?_)
  cases r with
  | unwritten => exact iff_of_true rfl (.inl rfl)
  | expression => exact ⟨fun shown => .inr ⟨rfl, shown⟩, fun either => (either.resolve_left nofun).2⟩
  | source | query => exact iff_of_false Bool.false_ne_true (by simp)

theorem writable_constant (value : Value) (type : DataType) : (Node.constant value type).Writable v .expression :=
  (writable_uniform rfl).mpr ⟨rfl, fun _ member => absurd member List.not_mem_nil⟩

theorem writable_binary {op : BinaryOp} {left right : Node} {type : DataType} :
    (Node.binary op left right type).Writable v .expression ↔
      left.Writable v .expression ∧ right.Writable v .expression := by
  refine (writable_uniform rfl).trans ((and_iff_right rfl).trans ?_)
  simp [Shape.children, Role.within]

theorem writable_aside (notSelect : s.kind ≠ .select) (notGroup : s.kind ≠ .groupAggregate) :
    (Node.mk s).Writable v .unwritten ↔ ∀ c ∈ s.children, c.Writable v .unwritten := by
  have unwritten : s.roles v .unwritten = s.children.map (Prod.mk .unwritten) := by
    cases s with
    | select => exact absurd rfl notSelect
    | groupAggregate => exact absurd rfl notGroup
    | join | subquery => simp [Shape.roles, Role.within, Shape.children]
    | _ => rfl
  rw [writable_mk, unwritten, List.forall_mem_map]
  exact and_iff_right rfl

theorem writable_parts (v : Draft) : PartByPart (Writable v .unwritten) := by
  intro s ordinary
  apply writable_aside <;>
  · rintro same
    cases s <;> first | cases ordinary; done | cases same

theorem writable_aggregate {label : String} {inGroup asQuery : Node} {type : DataType} (strict : v.eitherForm = false) :
    (Node.groupAggregate label inGroup asQuery type).Writable v .expression ↔
      v.shows label = true ∧ inGroup.Writable v .expression ∧ asQuery.Writable v .expression := by
  rw [writable_mk, Shape.roles_groupAggregate Role.noConfusion]
  refine and_congr Iff.rfl ?_
  simp [Draft.form, strict]

theorem writable_aggregate_aside {label : String} {inGroup asQuery : Node} {type : DataType} :
    (Node.groupAggregate label inGroup asQuery type).Writable v .unwritten ↔
      inGroup.Writable v (if v.loses label then .unwritten else .expression) ∧ asQuery.Writable v .unwritten := by
  rw [writable_mk]
  refine (and_iff_right rfl).trans ?_
  simp [Shape.roles]

/-- Where labels do not count, whatever is not written may be anything. -/
theorem writable_unwritten (free : v.lost = none) (n : Node) : n.Writable v .unwritten := by
  induction n using inductNode with
  | step s ih =>
    rw [writable_mk, Shape.roles_unwritten free, List.forall_mem_map]
    exact ⟨rfl, ih⟩

theorem Writable.left (strict : v.eitherForm = false) (writable : n.Writable v r) : n.Writable v .unwritten := by
  cases known : v.lost with
  | none => exact writable_unwritten known n
  | some hides =>
    induction n using inductNode generalizing r with
    | step s ih =>
      -- What is written shows its label, which is not lost then, so its parts are asked for as they were.
      by_cases written : r = .unwritten
      · exact written ▸ writable
      have below (c : Node) (child : c ∈ s.children) : c.Writable v .unwritten := by
        obtain ⟨r', member⟩ := Shape.exists_role r child
        exact ih c child ((writable_mk.mp writable).2 (r', c) member)
      by_cases select : s.kind = .select
      · cases s with
        | select q =>
          obtain ⟨shown, parts⟩ := (writable_select written).mp writable
          exact (writable_kept (Draft.loses_of_shows known shown)).mpr parts
        | _ => cases select
      · by_cases group : s.kind = .groupAggregate
        · cases s with
          | groupAggregate label inGroup asQuery type =>
            obtain rfl : r = .expression := by
              have fits := (writable_mk.mp writable).1
              cases r <;> first | rfl | exact absurd rfl written | cases fits
            obtain ⟨shown, first, -⟩ := (writable_aggregate strict).mp writable
            rw [writable_aggregate_aside, Draft.loses_of_shows known shown]
            exact ⟨first, below asQuery (by simp [Shape.children])⟩
          | _ => cases group
        · exact (writable_aside select group).mpr below

/-- Labels count only where a tree is to be changed. -/
theorem Writable.free (writable : n.Writable v r) : n.Writable { v with lost := none } r := by
  induction n using inductNode generalizing r with
  | step s ih =>
    by_cases unwritten : r = .unwritten
    · exact unwritten ▸ writable_unwritten rfl _
    · obtain ⟨fits, parts⟩ := writable_mk.mp writable
      have same : s.roles { v with lost := none } r = s.roles v r := by
        cases s <;> simp [Shape.roles, unwritten, Select.roles, Draft.order, Draft.form]
      refine writable_mk.mpr ⟨?_, fun x member => ?_⟩
      · revert fits
        cases r <;> cases s <;> simp [Shape.fits, Draft.shows]
      · rw [same] at member
        exact ih x.2 (Shape.roles_child member) (parts x member)

end Node

end QueryTree
