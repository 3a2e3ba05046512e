import QueryTree.Dialect.Shipped
import QueryTree.Proofs.Node.Nulls

/-! Tests and values, each in its place.

Where bits stand for booleans, a place asks for a test or for a value, and a tree is placed when nothing in it stands
where the other is asked for. Taking positions brings every tree there, whatever it was. What amends statements after
that neither turns a test into a value nor a value into a test, and what it adds is placed.
-/

set_option autoImplicit false

namespace QueryTree

/-! ### Places -/

namespace Shape

variable {α β : Type}

/-- The children that stand where a test is asked for: filters, conditions, and the operands of connectives. -/
@[simp] def tests : Shape α → List α
  | .select q => q.filter.toList
  | .join _ _ _ condition => condition.toList
  | .conditional branches _ _ => branches.map (·.condition)
  | .binary op left right _ => if op.isLogical then [left, right] else []
  | .unary op operand _ => if op = .not then [operand] else []
  | .update u => u.filter.toList
  | .delete _ _ filter => filter.toList
  | .createIndex i => i.filter.toList
  | _ => []

/-- All other children. -/
@[simp] def values : Shape α → List α
  | .select q =>
    q.columns.map (·.expr) ++ q.source.toList ++ q.groupBy ++ q.orderBy.map (·.expr) ++ q.skip.toList ++ q.take.toList
  | .join _ left right _ => [left, right]
  | .conditional branches otherwise _ => branches.map (·.result) ++ otherwise.toList
  | .binary op left right _ => if op.isLogical then [] else [left, right]
  | .unary op operand _ => if op = .not then [] else [operand]
  | .update u => u.assignments.map (·.expr)
  | .delete .. | .createIndex _ => []
  | s => s.children

theorem mem_children_iff {s : Shape α} {c : α} : c ∈ s.children ↔ c ∈ s.tests ∨ c ∈ s.values := by
  cases s with
  | select q => grind [children, tests, values, Select.children]
  | join kind left right condition => grind [children, tests, values]
  | conditional branches otherwise type => grind [children, tests, values, Branch.children]
  | binary op left right type => cases logical : op.isLogical <;> simp [children, tests, values, logical]
  | unary op operand type => by_cases negation : op = .not <;> simp [children, tests, values, negation]
  | update u => grind [children, tests, values, Update.children]
  | _ => simp [children, tests, values]

theorem tests_map (f : α → β) (s : Shape α) : (s.map f).tests = s.tests.map f := by
  cases s with
  | binary op left right type => cases logical : op.isLogical <;> simp [map, tests, logical]
  | unary op operand type => by_cases negation : op = .not <;> simp [map, tests, negation]
  | _ => simp [map, tests, Select.map, Update.map, CreateIndex.map, Branch.map, toList_map]

theorem values_map (f : α → β) (s : Shape α) : (s.map f).values = s.values.map f := by
  have whole := children_map f s
  cases s with
  | binary op left right type => cases logical : op.isLogical <;> simp [map, values, logical]
  | unary op operand type => by_cases negation : op = .not <;> simp [map, values, negation]
  | conditional branches otherwise type => simp [map, values, Branch.map, toList_map]
  | select q => simp [map, values, Select.map, Binding.map, OrderItem.map, toList_map, Function.comp_def]
  | update u => simp [map, values, Update.map, Binding.map]
  | join kind left right condition => rfl
  | delete owner label filter => rfl
  | createIndex i => rfl
  | _ => exact whole

end Shape

namespace Node

/-- No bit value stands where a test is asked for, and no test where a value is. -/
def Placed (n : Node) : Prop :=
  ∀ s, .mk s ∈ n.subtrees → (∀ c ∈ s.tests, Amend.isBit c = false) ∧ ∀ c ∈ s.values, c.isPredicate = false

/-- Where the one may stand, so may the other, with nothing out of its place in it that was not before and no null
compared. -/
structure StandsFor (before after : Node) : Prop where
  predicate : after.isPredicate = before.isPredicate
  boolean : after.dataType.isBoolean = before.dataType.isBoolean
  null : Pass.isNullLiteral after = Pass.isNullLiteral before
  placed : before.Placed → after.Placed
  safe : before.NullSafe → after.NullSafe

theorem placed_mk {s : Shape Node} : (Node.mk s).Placed ↔
    (∀ c ∈ s.tests, Amend.isBit c = false ∧ c.Placed) ∧ ∀ c ∈ s.values, c.isPredicate = false ∧ c.Placed := by
  simp only [Placed, subtrees_mk, List.mem_cons, List.mem_flatMap]
  constructor
  · intro placed
    have below {c : Node} (child : c ∈ s.children) : c.Placed := fun t member => placed t (.inr ⟨c, child, member⟩)
    obtain ⟨tests, values⟩ := placed s (.inl rfl)
    exact ⟨fun c test => ⟨tests c test, below (Shape.mem_children_iff.mpr (.inl test))⟩,
      fun c value => ⟨values c value, below (Shape.mem_children_iff.mpr (.inr value))⟩⟩
  · rintro ⟨tests, values⟩ t (same | ⟨c, child, member⟩)
    · cases same
      exact ⟨fun c test => (tests c test).1, fun c value => (values c value).1⟩
    · rcases Shape.mem_children_iff.mp child with test | value
      · exact (tests c test).2 t member
      · exact (values c value).2 t member

end Node

/-! ### Taking positions -/

namespace Amend

/-- A node that may stand at a position as it is. -/
def Suits : Position → Node → Prop
  | .predicate, n => isBit n = false
  | .value, n => n.isPredicate = false

variable {α β : Type}

theorem positioned_tests (s : Shape (Position → α)) : (positioned s).tests = s.tests.map (· .predicate) := by
  cases s with
  | binary op left right type => cases logical : op.isLogical <;> simp [positioned, Shape.tests, logical]
  | unary op operand type => by_cases negation : op = .not <;> simp [positioned, Shape.tests, negation]
  | _ =>
    simp [positioned, Shape.map, Shape.tests, Select.map, Update.map, CreateIndex.map, Shape.toList_map,
      Function.comp_def]

theorem positioned_values (s : Shape (Position → α)) : (positioned s).values = s.values.map (· .value) := by
  have every := Shape.values_map (fun node : Position → α => node .value) s
  cases s with
  | binary op left right type => cases logical : op.isLogical <;> simp [positioned, Shape.values, logical]
  | unary op operand type => by_cases negation : op = .not <;> simp [positioned, Shape.values, negation]
  | conditional branches otherwise type =>
    simp [positioned, Shape.values, Shape.toList_map, Function.comp_def]
  | select q => exact every
  | join kind left right condition => rfl
  | update u => exact every
  | delete owner label filter => rfl
  | createIndex i => rfl
  | _ => exact every

theorem retyped_placed {before after : Shape Node} : (retyped before after).Placed ↔ (Node.mk after).Placed := by
  unfold retyped
  split
  · split
    · rfl
    -- The type of a negation says nothing about what stands in it.
    · simp only [Node.negation, Node.ofUnary, Node.placed_mk]
      rfl
  · rfl

theorem normalizeBits_mk (s : Shape Node) (position : Position) : normalizeBits (.mk s) position =
    atPosition position (retyped s (positioned (s.map normalizeBits))) := by
  refine (congrFun (Node.para_mk _ s) position).trans ?_
  simp only [Shape.map_map, Shape.map_id]
  rfl

theorem literal_value (value : Value) : (Node.literal value).isPredicate = false ∧ (Node.literal value).Placed :=
  ⟨rfl, Node.placed_mk.mpr (by simp [Shape.tests, Shape.values, Shape.children])⟩

theorem asValue_placed {test : Node} (placed : test.Placed) (predicate : test.isPredicate = true) :
    (asValue test).Placed := by
  have noBit : isBit test = false := by simp [isBit, predicate]
  refine Node.placed_mk.mpr ⟨?_, ?_⟩
  · simp [Shape.tests, noBit, placed]
  · simp [Shape.values, literal_value]

theorem atPosition_placed (position : Position) {n : Node} (placed : n.Placed) :
    (atPosition position n).Placed ∧ Suits position (atPosition position n) := by
  cases position with
  | predicate =>
    by_cases bit : isBit n = true
    · have value : n.isPredicate = false := by simp_all [isBit]
      simp only [atPosition, bit, if_true]
      constructor
      · refine Node.placed_mk.mpr ⟨by simp [Shape.tests, BinaryOp.isLogical], ?_⟩
        simp [Shape.values, BinaryOp.isLogical, value, placed, literal_value]
      · rfl
    · simp_all [atPosition, Suits]
  | value =>
    by_cases test : n.isPredicate = true
    · simp only [atPosition, test, if_true]
      exact ⟨asValue_placed placed test, rfl⟩
    · simp_all [atPosition, Suits]

/-- Whatever stood where, and at whatever position it is asked for itself. -/
theorem normalizeBits_placed (n : Node) : ∀ position,
    (normalizeBits n position).Placed ∧ Suits position (normalizeBits n position) := by
  induction n using Node.inductNode with
  | step s each =>
    intro position
    rw [normalizeBits_mk]
    apply atPosition_placed
    rw [retyped_placed, Node.placed_mk, positioned_tests, positioned_values, Shape.tests_map, Shape.values_map]
    simp only [List.map_map, List.forall_mem_map]
    constructor
    · intro c test
      obtain ⟨placed, suits⟩ := each c (Shape.mem_children_iff.mpr (.inl test)) .predicate
      exact ⟨suits, placed⟩
    · intro c value
      obtain ⟨placed, suits⟩ := each c (Shape.mem_children_iff.mpr (.inr value)) .value
      exact ⟨suits, placed⟩

end Amend

/-! ### Amending after that -/

namespace Node.StandsFor

theorem refl (n : Node) : n.StandsFor n := ⟨rfl, rfl, rfl, id, id⟩

theorem trans {a b c : Node} (first : a.StandsFor b) (second : b.StandsFor c) : a.StandsFor c where
  predicate := second.predicate.trans first.predicate
  boolean := second.boolean.trans first.boolean
  null := second.null.trans first.null
  placed := second.placed ∘ first.placed
  safe := second.safe ∘ first.safe

theorem isBit {before after : Node} (stands : before.StandsFor after) : Amend.isBit after = Amend.isBit before := by
  simp only [Amend.isBit, stands.boolean, stands.predicate]

theorem map {f : Node → Node} {s : Shape Node} (each : ∀ c ∈ s.children, c.StandsFor (f c)) :
    (Node.mk s).StandsFor (.mk (s.map f)) where
  predicate := by cases s <;> rfl
  boolean := by
    -- Only a window takes its type from a child, so only there the child has to be alike in it.
    cases s with
    | window source orderBy => exact (each source (by simp [Shape.children])).boolean
    | _ => rfl
  null := by cases s <;> rfl
  placed := by
    intro placed
    obtain ⟨tests, values⟩ := Node.placed_mk.mp placed
    rw [Node.placed_mk, Shape.tests_map, Shape.values_map]
    simp only [List.forall_mem_map]
    constructor
    · intro c test
      have stands := each c (Shape.mem_children_iff.mpr (.inl test))
      exact ⟨stands.isBit.trans (tests c test).1, stands.placed (tests c test).2⟩
    · intro c value
      have stands := each c (Shape.mem_children_iff.mpr (.inr value))
      exact ⟨stands.predicate.trans (values c value).1, stands.placed (values c value).2⟩
  safe := fun safe => safe.map (fun c child => (each c child).null) fun c child =>
    (each c child).safe ((Node.nullSafe_mk.mp safe).2 c child)

theorem mapUp {rule : Node → Node} (step : ∀ n : Node, n.StandsFor (rule n)) (n : Node) : n.StandsFor (n.mapUp rule) := by
  induction n using Node.inductNode with
  | step s each =>
    rw [Node.mapUp_mk]
    exact (map each).trans (step _)

theorem statements {before after : List Node}
    (listed : ∀ n ∈ after, ∃ m ∈ before, m.StandsFor n) :
    (Node.statements before).StandsFor (.statements after) where
  predicate := rfl
  boolean := rfl
  null := rfl
  placed := by
    intro placed
    refine Node.placed_mk.mpr ⟨by simp [Shape.tests], fun n member => ?_⟩
    obtain ⟨m, stood, stands⟩ := listed n member
    have value := (Node.placed_mk.mp placed).2 m stood
    exact ⟨stands.predicate.trans value.1, stands.placed value.2⟩
  safe := by
    intro safe
    refine Node.nullSafe_mk.mpr ⟨⟨rfl, rfl⟩, fun n member => ?_⟩
    obtain ⟨m, stood, stands⟩ := listed n member
    exact stands.safe ((Node.nullSafe_mk.mp safe).2 m stood)

end Node.StandsFor

namespace Amend

theorem bracketed_placed (owner : String) {s t : Shape Node} (tests : t.tests = s.tests) (values : t.values = s.values)
    (statement : (Node.mk t).isPredicate = false) (placed : (Node.mk s).Placed) :
    (bracketed owner (.mk t)).Placed := by
  have same : (Node.mk t).Placed := Node.placed_mk.mpr (by rw [tests, values]; exact Node.placed_mk.mp placed)
  have setting (on : Bool) : (identityInsert owner on).Placed :=
    Node.placed_mk.mpr (by simp [Shape.tests, Shape.values, Shape.children, literal_value])
  refine Node.placed_mk.mpr ⟨by simp [Shape.tests], ?_⟩
  simp only [Shape.values, Shape.children, List.forall_mem_cons]
  exact ⟨⟨rfl, setting true⟩, ⟨statement, same⟩, ⟨rfl, setting false⟩, fun _ member => absurd member List.not_mem_nil⟩

theorem bracketed_safe (owner : String) {s t : Shape Node} (children : t.children = s.children)
    (statement : t.comparesNull = false ∧ t.isNullBit = false) (safe : (Node.mk s).NullSafe) :
    (bracketed owner (.mk t)).NullSafe := by
  have same : (Node.mk t).NullSafe := Node.nullSafe_mk.mpr ⟨statement, children ▸ (Node.nullSafe_mk.mp safe).2⟩
  have setting (on : Bool) : (identityInsert owner on).NullSafe :=
    Node.nullSafe_mk.mpr ⟨⟨rfl, rfl⟩, by simp [Shape.children, Node.nullSafe_literal]⟩
  refine Node.nullSafe_mk.mpr ⟨⟨rfl, rfl⟩, ?_⟩
  simp only [Shape.children, List.forall_mem_cons]
  exact ⟨setting true, same, setting false, fun _ member => absurd member List.not_mem_nil⟩

theorem identityBrackets_standsFor (n : Node) : n.StandsFor (identityBrackets.amend n) := by
  simp only [identityBrackets]
  refine Node.StandsFor.mapUp (fun n => ?_) n
  split
  · split
    · exact ⟨rfl, rfl, rfl, bracketed_placed _ rfl rfl rfl, bracketed_safe _ rfl ⟨rfl, rfl⟩⟩
    · exact .refl _
  · split
    · exact ⟨rfl, rfl, rfl, bracketed_placed _ rfl rfl rfl, bracketed_safe _ rfl ⟨rfl, rfl⟩⟩
    · exact .refl _
  · exact .refl _

theorem notNull_joined {columns : List IndexedColumn} {n : Node} (joined : Node.conjunction (columns.map fun c =>
    .ofUnary .isNotNull (.column { label := "", name := c.name, type := .unknown })) = some n) :
    isBit n = false ∧ n.Placed ∧ n.NullSafe := by
  refine Node.joinAll_holds (P := fun n => isBit n = false ∧ n.Placed ∧ n.NullSafe) ?_ ?_ n joined
  · intro a b first second
    refine ⟨rfl, Node.placed_mk.mpr ⟨?_, by simp [Shape.values, BinaryOp.isLogical]⟩, Node.nullSafe_mk.mpr ⟨⟨rfl, rfl⟩, ?_⟩⟩
    · simp [Shape.tests, BinaryOp.isLogical, first, second]
    · simp [Shape.children, first, second]
  · rw [List.forall_mem_map]
    intro c _
    refine ⟨rfl, Node.placed_mk.mpr ⟨by simp [Shape.tests], ?_⟩, Node.nullSafe_mk.mpr ⟨⟨rfl, rfl⟩, ?_⟩⟩
    · simp [Shape.values, Node.isPredicate, Node.placed_mk, Shape.tests, Shape.children]
    · simp [Shape.children, Node.nullSafe_column]

theorem uniqueIndexes_standsFor (n : Node) : n.StandsFor (uniqueIndexes.amend n) := by
  simp only [uniqueIndexes]
  refine Node.StandsFor.mapUp (fun n => ?_) n
  split
  · rename_i i
    split
    · split
      · rename_i filter joined
        obtain ⟨test, placed, safe⟩ := notNull_joined joined
        refine ⟨rfl, rfl, rfl, fun _ => Node.placed_mk.mpr ⟨?_, by simp [Shape.values]⟩,
          fun _ => Node.nullSafe_mk.mpr ⟨⟨rfl, rfl⟩, ?_⟩⟩
        · simpa [Shape.tests] using ⟨test, placed⟩
        · simpa [Shape.children] using safe
      · exact .refl _
    · exact .refl _
  · exact .refl _

theorem withoutClusteredKey_standsFor (n : Node) : n.StandsFor (withoutClusteredKey n) := by
  refine Node.StandsFor.mapUp (fun n => ?_) n
  split
  · refine ⟨rfl, rfl, rfl, fun _ => Node.placed_mk.mpr ?_, fun _ => Node.nullSafe_mk.mpr ⟨⟨rfl, rfl⟩, ?_⟩⟩
    · simp [Shape.tests, Shape.values, Shape.children, ConstraintKind.children]
    · simp [Shape.children, ConstraintKind.children]
  · exact .refl _

theorem clusteredIndexes_standsFor (n : Node) : n.StandsFor (clusteredIndexes.amend n) := by
  simp only [clusteredIndexes]
  refine Node.StandsFor.mapUp (fun n => ?_) n
  split
  · refine .statements fun n member => ?_
    obtain ⟨m, listed, rfl⟩ := List.mem_map.mp member
    refine ⟨m, listed, ?_⟩
    split
    · split
      · exact withoutClusteredKey_standsFor m
      · exact .refl _
    · exact .refl _
  · exact .refl _

theorem enumDefinitions_standsFor (n : Node) : n.StandsFor (enumDefinitions.amend n) := by
  simp only [enumDefinitions]
  split
  · rename_i definition
    unfold isEnumDefinition at definition
    split at definition
    · refine ⟨rfl, rfl, rfl, fun _ => Node.placed_mk.mpr ?_, fun _ => Node.nullSafe_mk.mpr ⟨⟨rfl, rfl⟩, ?_⟩⟩
      · simp [Shape.tests, Shape.values, Shape.children]
      · simp [Shape.children]
    · cases definition
  · refine Node.StandsFor.mapUp (fun n => ?_) n
    split
    · refine .statements fun n member => ⟨n, (List.mem_filter.mp member).1, .refl _⟩
    · exact .refl _

end Amend

/-- Positions are taken after rows are numbered, and what comes after that changes no place. -/
theorem Dialect.sqlServer_standsFor (paging : Paging) (n : Node) :
    (Amend.normalizeBits (if paging = .rowNumber then Amend.rowNumbers.amend n else n) .value).StandsFor
      ((sqlServer paging).amend n) := by
  have later (m : Node) : m.StandsFor (Amend.enumDefinitions.amend (Amend.clusteredIndexes.amend
      (Amend.uniqueIndexes.amend (Amend.identityBrackets.amend m)))) :=
    (Amend.identityBrackets_standsFor m).trans <| (Amend.uniqueIndexes_standsFor _).trans <|
      (Amend.clusteredIndexes_standsFor _).trans <| Amend.enumDefinitions_standsFor _
  cases paging with
  | rowNumber => exact later _
  | offsetFetch => exact later _

/-- What SQL Server is given has every test and every bit in its place, the tree as a whole standing for a value. -/
theorem Dialect.sqlServer_placed (paging : Paging) (n : Node) :
    ((sqlServer paging).amend n).Placed ∧ ((sqlServer paging).amend n).isPredicate = false := by
  have stands := sqlServer_standsFor paging n
  -- Row numbers are taken before positions are, so nothing is asked of them.
  obtain ⟨placed, value⟩ := Amend.normalizeBits_placed (if paging = .rowNumber then Amend.rowNumbers.amend n else n) .value
  exact ⟨stands.placed placed, stands.predicate.trans value⟩

end QueryTree
