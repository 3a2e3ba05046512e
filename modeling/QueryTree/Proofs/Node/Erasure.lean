import QueryTree.Proofs.Node.Marks
import QueryTree.Proofs.Node.Pairing

/-! What a comparison passes over, taken out of a tree.

Trees are alike when they are the same once that is taken out, so to be alike is an equivalence. What is taken out
leaves no mark, so trees that are alike have the same marks.
-/

set_option autoImplicit false

namespace QueryTree

/-- What stands for every literal whose value is passed over. -/
def Value.token : Value := .bool false

theorem Value.isNull_token : Value.token.isNull = false := rfl

theorem Value.eq_null {value : Value} (null : value.isNull = true) : value = .null := by
  cases value <;> first | rfl | cases null

/-- The layer without what is passed over in itself. A null stays. -/
def Shape.erase {α : Type} (f : Leniency) : Shape α → Shape α
  | .constant value type => .constant (if f.constants && !value.isNull then .token else value) type
  | .placeholder index type => .placeholder (if f.placeholders then 0 else index) type
  | s => s

theorem Shape.erase_map {α β : Type} (f : Leniency) (g : α → β) (s : Shape α) :
    (s.map g).erase f = (s.erase f).map g := by
  cases s <;> rfl

theorem Leniency.under_map {α β : Type} (f : Leniency) (g : α → β) (s : Shape α) :
    f.under (s.map g) = f.under s := by
  cases s <;> rfl

namespace Node

/-- The tree without what is passed over. -/
def erase (f : Leniency) (n : Node) : Node :=
  n.fold (fun (s : Shape (Leniency → Node)) f => .mk ((s.erase f).map fun c => c (f.under s))) f

theorem erase_mk (f : Leniency) (s : Shape Node) :
    (Node.mk s).erase f = .mk ((s.erase f).map fun c => c.erase (f.under s)) := by
  rw [erase, fold_mk, Shape.erase_map, Leniency.under_map, Shape.map_map]
  rfl

theorem erase_constant (f : Leniency) (value : Value) (type : DataType) : (Node.constant value type).erase f =
    .constant (if f.constants && !value.isNull then .token else value) type := erase_mk f _

theorem erase_placeholder (f : Leniency) (index : Nat) (type : DataType) : (Node.placeholder index type).erase f =
    .placeholder (if f.placeholders then 0 else index) type := erase_mk f _

theorem erase_of_alike {f : Leniency} {a b : Node} (same : a.alike f b = true) : a.erase f = b.erase f := by
  induction a using Node.inductNode generalizing f b with
  | step s ih =>
    generalize whole : Node.mk s = a at same
    cases alike_layers same with
    | @constants value value' type values =>
      rw [erase_constant, erase_constant]
      split at values
      next lenient =>
        rw [lenient, values, Bool.true_and]
        cases null : value'.isNull with
        | false => rfl
        | true => rw [Value.eq_null (values.trans null), Value.eq_null null]
      next => rw [values]
    | @placeholders index index' type indices =>
      rw [erase_placeholder, erase_placeholder]
      rcases indices with lenient | rfl
      · rw [lenient]
        rfl
      · rfl
    | paired z both =>
      obtain rfl := Node.mk.inj whole
      -- Only literals and placeholders lose anything of their own, and neither is paired.
      have own : z.erase f = z := by
        have := both.notConstant
        have := both.notPlaceholder
        cases z <;> first | rfl | contradiction
      rw [erase_mk, erase_mk, Shape.erase_map, Shape.erase_map, own, Shape.map_map, Shape.map_map, Leniency.under_map,
        Leniency.under_map, Shape.map_congr fun c member => ?_]
      refine ih c.1 ?_ (both.each c member)
      rw [Shape.children_map]
      exact List.mem_map_of_mem member

section Marks

variable {g : Node → Node} {f : Leniency}

theorem marksOption_map {o : Option Node} (each : ∀ c ∈ o.toList, (g c).marks f = c.marks f) :
    marksOption f (o.map g) = marksOption f o := by
  cases o with
  | none => rfl
  | some c => rw [Option.map_some, marksOption, marksOption, each c (by simp)]

theorem marksList_map {l : List Node} (each : ∀ c ∈ l, (g c).marks f = c.marks f) :
    marksList f (l.map g) = marksList f l := by
  induction l with
  | nil => rfl
  | cons c rest ih =>
    obtain ⟨here, there⟩ := List.forall_mem_cons.mp each
    rw [List.map_cons, marksList, marksList, here, ih there]

theorem marksBindings_map {l : List (Binding Node)} (each : ∀ c ∈ l.map (·.expr), (g c).marks f = c.marks f) :
    marksBindings f (l.map (·.map g)) = marksBindings f l := by
  induction l with
  | nil => rfl
  | cons b rest ih =>
    obtain ⟨here, there⟩ := List.forall_mem_cons.mp each
    rw [List.map_cons, Binding.map, marksBindings, marksBindings, here, ih there]

theorem marksOrder_map {l : List (OrderItem Node)} (each : ∀ c ∈ l.map (·.expr), (g c).marks f = c.marks f) :
    marksOrder f (l.map (·.map g)) = marksOrder f l := by
  induction l with
  | nil => rfl
  | cons o rest ih =>
    obtain ⟨here, there⟩ := List.forall_mem_cons.mp each
    rw [List.map_cons, OrderItem.map, marksOrder, marksOrder, here, ih there]

theorem marksBranches_map {l : List (Branch Node)}
    (each : ∀ c ∈ l.flatMap Branch.children, (g c).marks f = c.marks f) :
    marksBranches f (l.map (·.map g)) = marksBranches f l := by
  induction l with
  | nil => rfl
  | cons b rest ih =>
    rw [List.flatMap_cons, List.forall_mem_append] at each
    rw [List.map_cons, Branch.map, marksBranches, marksBranches, ih each.2, each.1 _ (List.mem_cons_self ..),
      each.1 b.result (by simp [Branch.children])]

theorem dataTypes_map {l : List Node} (types : ∀ c ∈ l, (g c).dataType = c.dataType) :
    dataTypes (l.map g) = dataTypes l := by
  induction l with
  | nil => rfl
  | cons c rest ih =>
    obtain ⟨here, there⟩ := List.forall_mem_cons.mp types
    rw [List.map_cons, dataTypes, dataTypes, here, ih there]

/-- Children with the same types and marks leave the marks of a tree as they are. -/
theorem marks_map {s : Shape Node} (types : ∀ c ∈ s.children, (g c).dataType = c.dataType)
    (each : ∀ c ∈ s.children, (g c).marks (f.under s) = c.marks (f.under s)) :
    (Node.mk (s.map g)).marks f = (Node.mk s).marks f := by
  cases s with
  | table | column | constant | placeholder | parameter | enumDefinition => rfl
  | select q =>
    simp only [Shape.children, Select.children, List.forall_mem_append, Leniency.under] at each
    obtain ⟨⟨⟨⟨⟨⟨columns, source⟩, filter⟩, groupBy⟩, orderBy⟩, skip⟩, take⟩ := each
    simp only [Shape.map, Select.map, marks, marksBindings_map columns, marksOption_map source, marksOption_map filter,
      marksOrder_map orderBy, marksList_map groupBy, marksOption_map skip, marksOption_map take, List.length_map]
  | join kind left right condition =>
    simp only [Shape.children, List.forall_mem_cons, Leniency.under] at each types
    obtain ⟨ofLeft, ofRight, ofCondition⟩ := each
    simp only [Shape.map, marks, ofLeft, ofRight, marksOption_map ofCondition, types.1, types.2.1]
  | aggregate kind argument distinct type => simp only [Shape.map, marks, marksOption_map (o := argument) (f := f) each]
  | groupAggregate label inGroup asQuery type =>
    simp only [Shape.children, List.forall_mem_cons, Leniency.under] at each
    simp only [Shape.map, marks, each.1, each.2.1]
  | subquery kind operand query type =>
    simp only [Shape.children, List.forall_mem_append, List.forall_mem_singleton, Leniency.under] at each
    simp only [Shape.map, marks, marksOption_map each.1, each.2]
  | call routine arguments type =>
    simp only [Shape.map, marks, marksList_map (l := arguments) (f := f) each, List.length_map]
  | window source orderBy =>
    simp only [Shape.children, List.forall_mem_cons, Leniency.under] at each types
    simp only [Shape.map, marks, each.1, marksOrder_map each.2, types.1, List.length_map]
  | binary op left right type =>
    simp only [Shape.children, List.forall_mem_cons, Leniency.under] at each
    simp only [Shape.map, marks, each.1, each.2.1]
  | unary op operand type =>
    simp only [Shape.children, List.forall_mem_singleton, Leniency.under] at each
    simp only [Shape.map, marks, each]
  | conditional branches otherwise type =>
    simp only [Shape.children, List.forall_mem_append, Leniency.under] at each
    simp only [Shape.map, marks, marksBranches_map each.1, marksOption_map each.2, List.length_map]
  | tuple elements =>
    simp only [Shape.map, marks, marksList_map (l := elements) (f := f) each, dataTypes_map (l := elements) types,
      List.length_map]
  | object entity keys => simp only [Shape.map, marks, marksBindings_map (l := keys) (f := f) each, List.length_map]
  | insert statement =>
    simp only [Shape.map, Insert.map, marks, marksList_map (l := statement.values) (f := f) each, List.length_map]
  | update statement =>
    simp only [Shape.children, Update.children, List.forall_mem_append, Leniency.under] at each
    simp only [Shape.map, Update.map, marks, marksBindings_map each.1, marksOption_map each.2, List.length_map]
  | delete owner label filter => simp only [Shape.map, marks, marksOption_map (o := filter) (f := f) each]
  | createTable statement =>
    simp only [Shape.children, List.forall_mem_append, Leniency.under] at each
    simp only [Shape.map, CreateTable.map, marks, marksList_map each.1, marksList_map each.2, List.length_map]
  | alterTable owner actions =>
    simp only [Shape.map, marks, marksList_map (l := actions) (f := f) each, List.length_map]
  | columnDefinition name type constraints =>
    simp only [Shape.map, marks, marksList_map (l := constraints) (f := f) each, List.length_map]
  | constraint name kind =>
    cases kind with
    | default value =>
      simp only [Shape.children, ConstraintKind.children, List.forall_mem_singleton, Leniency.under] at each
      simp only [Shape.map, ConstraintKind.map, marks, marksConstraint, each]
    | _ => rfl
  | constraintAction change target =>
    simp only [Shape.children, List.forall_mem_singleton, Leniency.under] at each
    simp only [Shape.map, marks, each]
  | createIndex statement =>
    simp only [Shape.map, CreateIndex.map, marks, marksOption_map (o := statement.filter) (f := f.inline) each]
  | setCommand name arguments =>
    simp only [Shape.map, marks, marksList_map (l := arguments) (f := f.inline) each, List.length_map]
  | statements list => simp only [Shape.map, marks, marksList_map (l := list) (f := f) each, List.length_map]

end Marks

theorem dataType_map {g : Node → Node} {s : Shape Node} (types : ∀ c ∈ s.children, (g c).dataType = c.dataType) :
    (Node.mk (s.map g)).dataType = (Node.mk s).dataType := by
  cases s with
  | join kind left right condition =>
    simp only [Shape.children, List.forall_mem_cons] at types
    simp only [Shape.map, dataType, types.1, types.2.1]
  | window source orderBy =>
    simp only [Shape.children, List.forall_mem_cons] at types
    simp only [Shape.map, dataType, types.1]
  | tuple elements => simp only [Shape.map, dataType, dataTypes_map (l := elements) types]
  | _ => rfl

section Erase

variable {f : Leniency}

theorem children_erase {s : Shape Node} : (s.erase f).children = s.children := by cases s <;> rfl

theorem dataType_erase (n : Node) : (n.erase f).dataType = n.dataType := by
  induction n using Node.inductNode generalizing f with
  | step s ih =>
    rw [erase_mk, dataType_map fun c member => ih c (children_erase ▸ member)]
    cases s <;> rfl

/-- What is passed over in a layer leaves no mark. -/
theorem marks_eraseLayer (s : Shape Node) : (Node.mk (s.erase f)).marks f = (Node.mk s).marks f := by
  cases s with
  | constant value type =>
    simp only [Shape.erase, marks]
    cases lenient : f.constants with
    | false => rfl
    | true => cases null : value.isNull <;> simp [null, Value.isNull_token]
  | placeholder index type =>
    simp only [Shape.erase, marks]
    cases lenient : f.placeholders <;> simp
  | _ => rfl

theorem marks_erase (n : Node) : (n.erase f).marks f = n.marks f := by
  induction n using Node.inductNode generalizing f with
  | step s ih =>
    have under : f.under (s.erase f) = f.under s := by cases s <;> rfl
    rw [erase_mk, marks_map (fun c _ => dataType_erase c) fun c member => ?_, marks_eraseLayer]
    rw [under]
    exact ih c (children_erase ▸ member)

variable {a b : Node}

theorem marks_of_alike (same : a.alike f b = true) : a.marks f = b.marks f := by
  rw [← marks_erase a, ← marks_erase b, erase_of_alike same]

theorem alike_of_writes (moments : Coding Moment)
    (same : a.writes moments.writes f = b.writes moments.writes f) : a.alike f b = true :=
  (told moments f a b [] [] (congrArg (· ++ []) same)).1

theorem alike_of_marks (same : a.marks f = b.marks f) : a.alike f b = true :=
  alike_of_writes Moment.coding (congrArg (List.flatMap _) same)

theorem alike_iff_erase : a.alike f b = true ↔ a.erase f = b.erase f :=
  ⟨erase_of_alike, fun same => alike_of_marks (by rw [← marks_erase a, same, marks_erase])⟩

end Erase

end Node

instance : LawfulBEq Node where
  eq_of_beq := Node.eq_of_alike
  rfl := Node.alike_iff_erase.mpr rfl

/-- Comparing trees with nothing passed over decides whether they are the same. -/
instance : DecidableEq Node := instDecidableEqOfLawfulBEq

end QueryTree
