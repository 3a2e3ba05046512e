import QueryTree.Proofs.Amend.Positions
import QueryTree.Proofs.Rows.Merging

/-! Conditions where a bit stands for a boolean.

A bit says whether a test is true. So a test that stands as a value is false in it also where it is unknown, and what is
made of that value may differ: a null test of it, a comparison with it, its negation. A condition says the same with bits
on a row where no such test is unknown in a place where that shows.
-/

set_option autoImplicit false

namespace QueryTree

/-! ### Conditions -/

/-- A test, or of boolean type. -/
def Node.isTruth (n : Node) : Bool := n.dataType.isBoolean || n.isPredicate

/-- A layer of a condition. A literal is not null, and what is typed as a boolean is one. -/
def Shape.isCondition : Shape Node → Bool
  | .column _ => true
  | .constant value type => !value.isNull && (!type.isBoolean || value.bool?.isSome)
  | .binary op _ _ _ => op.isComparison || op.isLogical
  | .unary op _ _ => op ≠ .negate
  | .conditional branches otherwise type =>
    !type.isBoolean || branches.all (·.result.isTruth) && otherwise.all Node.isTruth
  | _ => false

/-- Built from columns, literals, comparisons, connectives, null tests and conditionals. -/
def Node.isCondition : Node → Bool :=
  para fun s => (s.map Prod.fst).isCondition && s.children.all Prod.snd

theorem Node.isCondition_mk {s : Shape Node} :
    (Node.mk s).isCondition = true ↔ s.isCondition = true ∧ ∀ c ∈ s.children, c.isCondition = true := by
  unfold isCondition
  rw [para_mk, Shape.map_map, Shape.map_id, Bool.and_eq_true, List.all_eq_true, Shape.children_map]
  exact and_congr_right' List.forall_mem_map

namespace Truth

variable {a b : Option Bool}

theorem both_true : both a b = some true ↔ a = some true ∧ b = some true := by
  rcases a with _ | _ | _ <;> rcases b with _ | _ | _ <;> decide

theorem both_false : both a b = some false ↔ a = some false ∨ b = some false := by
  rcases a with _ | _ | _ <;> rcases b with _ | _ | _ <;> decide

theorem either_true : either a b = some true ↔ a = some true ∨ b = some true := by
  rcases a with _ | _ | _ <;> rcases b with _ | _ | _ <;> decide

theorem either_false : either a b = some false ↔ a = some false ∧ b = some false := by
  rcases a with _ | _ | _ <;> rcases b with _ | _ | _ <;> decide

theorem map_not {truth : Bool} : a.map not = some truth ↔ a = some !truth := by
  rcases a with _ | _ | _ <;> cases truth <;> decide

end Truth

/-! ### Values with bits -/

namespace Engine

variable (e : Engine) (columns : Column → Value)

/-- What a layer comes to, from what its children come to. -/
def layer : Shape Value → Value
  | .column c => columns c
  | s => e.combine s

theorem value_mk (s : Shape Node) : e.value columns (.mk s) = e.layer columns (s.map (e.value columns)) := by
  by_cases notColumn : s.kind ≠ .column
  · refine (Node.evaluate_mk _ _ notColumn).trans ?_
    cases s <;> first | rfl | exact absurd rfl notColumn
  · cases s with
    | column c => exact Node.evaluate_column _ _ c
    | _ => exact absurd (by simp [Shape.kind]) notColumn

/-- What comes to `v`, as it is read at a position: a bit says whether a test is true. -/
def settle (position : Amend.Position) (test : Bool) (v : Value) : Value :=
  if position = .value && test then .bool (v = .bool true) else v

/-- What a tree comes to where no test is a value. -/
def bitValue : Node → Amend.Position → Value :=
  Node.para fun s position =>
    settle position (Node.mk (s.map Prod.fst)).isPredicate (e.layer columns (Amend.positioned (s.map Prod.snd)))

theorem bitValue_mk (s : Shape Node) (position : Amend.Position) : e.bitValue columns (.mk s) position =
    settle position (Node.mk s).isPredicate (e.layer columns (Amend.positioned (s.map (e.bitValue columns)))) := by
  refine (congrFun (Node.para_mk _ s) position).trans ?_
  simp only [Shape.map_map, Shape.map_id]
  rfl

theorem bitValue_predicate (s : Shape Node) : e.bitValue columns (.mk s) .predicate =
    e.layer columns (Amend.positioned (s.map (e.bitValue columns))) := e.bitValue_mk columns s .predicate

theorem bitValue_value (n : Node) : e.bitValue columns n .value =
    if n.isPredicate then .bool (e.bitValue columns n .predicate = .bool true) else e.bitValue columns n .predicate := by
  cases n with
  | mk s =>
    rw [bitValue_predicate, bitValue_mk]
    simp [settle]

theorem settle_truth {position : Amend.Position} {test : Bool} {v : Value} (truth : ∃ a, v = Truth.value a) :
    ∃ a, settle position test v = Truth.value a := by
  unfold settle
  split
  · exact ⟨some _, rfl⟩
  · exact truth

theorem choose_cons (b : Branch Value) (rest : List (Branch Value)) (otherwise : Option Value) :
    choose (b :: rest) otherwise = if b.condition = .bool true then b.result else choose rest otherwise := by
  by_cases first : b.condition = .bool true <;> simp [choose, first]

theorem choose_property {P : Value → Prop} (null : P .null) {branches : List (Branch Value)} {otherwise : Option Value}
    (results : ∀ b ∈ branches, P b.result) (last : ∀ v ∈ otherwise, P v) : P (choose branches otherwise) := by
  induction branches with
  | nil =>
    cases otherwise with
    | none => exact null
    | some v => exact last v rfl
  | cons b rest ih =>
    rw [choose_cons]
    split
    · exact results b List.mem_cons_self
    · exact ih fun c member => results c (List.mem_cons_of_mem _ member)

/-- Comparisons and connectives are true, false or unknown. -/
theorem binary_truth {op : BinaryOp} (test : (op.isComparison || op.isLogical) = true) (a b : Value) :
    ∃ truth, e.binary op a b = Truth.value truth := by
  unfold binary
  split
  · exact ⟨_, rfl⟩
  · split
    · exact ⟨_, rfl⟩
    · split
      · exact ⟨none, rfl⟩
      · have comparison : op.isComparison = true := by cases op <;> simp_all [BinaryOp.isComparison, BinaryOp.isLogical]
        exact ⟨_, if_pos comparison⟩

theorem unary_truth {op : UnaryOp} (test : op ≠ .negate) (a : Value) : ∃ truth, e.unary op a = Truth.value truth := by
  cases op with
  | negate => exact absurd rfl test
  | not => exact ⟨_, rfl⟩
  | isNull => exact ⟨some _, rfl⟩
  | isNotNull => exact ⟨some _, rfl⟩

variable {columns}

theorem bitValue_truth (booleans : ∀ c : Column, c.type.isBoolean = true → ∃ truth, columns c = Truth.value truth)
    (n : Node) : n.isCondition = true → n.isTruth = true →
      ∀ position, ∃ truth, e.bitValue columns n position = Truth.value truth := by
  induction n using Node.inductNode with
  | step s each =>
    intro condition boolean position
    obtain ⟨layer, below⟩ := Node.isCondition_mk.mp condition
    rw [bitValue_mk]
    apply settle_truth
    cases s with
    | column c => exact booleans c (by simpa [Node.isTruth, Node.dataType, Node.isPredicate] using boolean)
    | constant value type =>
      have typed : type.isBoolean = true := by simpa [Node.isTruth, Node.dataType, Node.isPredicate] using boolean
      obtain ⟨b, given⟩ : ∃ b, value.bool? = some b := by
        simpa [Shape.isCondition, typed, Option.isSome_iff_exists] using (Bool.and_eq_true_iff.mp layer).2
      exact ⟨some b, Value.bool_eq_some.mp given⟩
    | binary op left right type => exact e.binary_truth layer _ _
    | unary op operand type => exact e.unary_truth (of_decide_eq_true layer) _
    | conditional branches otherwise type =>
      have typed : type.isBoolean = true := by simpa [Node.isTruth, Node.dataType, Node.isPredicate] using boolean
      simp only [Shape.isCondition, typed, Bool.not_true, Bool.false_or, Bool.and_eq_true, List.all_eq_true,
        Option.all_eq_true] at layer
      obtain ⟨inBranches, last⟩ := Shape.forall_conditional.mp fun c child => each c child (below c child)
      -- A `CASE` comes to one of its results, or to null where it has no `ELSE`.
      apply choose_property (P := fun v => ∃ truth, v = Truth.value truth) ⟨none, rfl⟩
      · simp only [List.map_map, List.forall_mem_map]
        exact fun b member => (inBranches b member).2 (layer.1 b member) .value
      · simp only [Option.map_map, Option.mem_def, Option.map_eq_some_iff]
        rintro _ ⟨n, left, rfl⟩
        exact last n left (layer.2 n left) .value
    | _ => cases layer

end Engine

/-! ### Normalizing -/

namespace Amend

variable {α β : Type}

theorem positioned_map (f : α → β) (s : Shape (Position → α)) :
    (positioned s).map f = positioned (s.map fun node position => f (node position)) := by
  cases s with
  | constraint name kind => cases kind <;> rfl
  | _ =>
    simp [positioned, Shape.map, Select.map, Update.map, Insert.map, CreateTable.map, CreateIndex.map, Branch.map,
      Binding.map, OrderItem.map, Function.comp_def]

theorem retyped_predicate {before after : Shape Node} :
    (retyped before after).isPredicate = (Node.mk after).isPredicate := by
  unfold retyped
  split
  · split <;> rfl
  · rfl

theorem retyped_boolean {before after : Shape Node} (bit : isBit (retyped before after) = true) :
    retyped before after = .mk after := by
  unfold retyped at bit ⊢
  split
  · split
    · rfl
    · rename_i operand _ other _ differs
      simp [differs, isBit, Node.negation, Node.ofUnary, Node.isPredicate] at bit
  · rfl

variable (e : Engine) {columns : Column → Value}

theorem value_retyped {before after : Shape Node} :
    e.value columns (retyped before after) = e.value columns (.mk after) := by
  unfold retyped
  split
  · split
    · rfl
    · simp only [Node.negation, Node.ofUnary, Engine.value_mk]
      rfl
  · rfl

theorem value_literal (v : Value) : e.value columns (.literal v) = v := e.value_mk columns _

/-- A bit that is compared with true is true, false or unknown as it was; a test that is read by a `CASE` is false where
it was unknown. -/
theorem value_atPosition (equal : ∀ b, e.compare .eq (.bool b) (.bool true) = some b) {n : Node}
    (bit : isBit n = true → ∃ truth, e.value columns n = Truth.value truth) (position : Position) :
    e.value columns (atPosition position n) = Engine.settle position n.isPredicate (e.value columns n) := by
  cases position with
  | predicate =>
    by_cases isBit : isBit n = true
    · obtain ⟨truth, comes⟩ := bit isBit
      have compared : e.value columns (.equal n (.literal (.bool true))) =
          e.binary .eq (e.value columns n) (e.value columns (.literal (.bool true))) := e.value_mk columns _
      simp only [atPosition, isBit, if_true]
      rw [compared, value_literal, comes]
      -- A bit that is null stays null under the comparison.
      rcases truth with _ | b
      · rfl
      · simp [Engine.binary, Engine.settle, Truth.value, Value.isNull, BinaryOp.isComparison, equal]
    · simp [atPosition, isBit, Engine.settle]
  | value =>
    by_cases test : n.isPredicate = true
    · have read : e.value columns (asValue n) =
          Engine.choose [⟨e.value columns n, e.value columns (.literal (.bool true))⟩]
            (some (e.value columns (.literal (.bool false)))) := e.value_mk columns _
      simp only [atPosition, test, if_true]
      rw [read, value_literal, value_literal, Engine.choose_cons]
      by_cases holds : e.value columns n = .bool true <;> simp [Engine.settle, Engine.choose, holds]
    · simp [atPosition, test, Engine.settle]

/-- Normalizing bits writes out how they are read. -/
theorem value_normalizeBits (equal : ∀ b, e.compare .eq (.bool b) (.bool true) = some b)
    (booleans : ∀ c : Column, c.type.isBoolean = true → ∃ truth, columns c = Truth.value truth) (n : Node) :
    n.isCondition = true → ∀ position, e.value columns (normalizeBits n position) = e.bitValue columns n position := by
  induction n using Node.inductNode with
  | step s each =>
    intro condition position
    have below := (Node.isCondition_mk.mp condition).2
    have core : e.value columns (retyped s (positioned (s.map normalizeBits))) = e.bitValue columns (.mk s) .predicate := by
      rw [value_retyped, Engine.value_mk, positioned_map, Shape.map_map, Engine.bitValue_predicate]
      refine congrArg (e.layer columns ∘ positioned) (Shape.map_congr fun c child => ?_)
      funext position
      exact each c child (below c child) position
    have predicate : (retyped s (positioned (s.map normalizeBits))).isPredicate = (Node.mk s).isPredicate := by
      rw [retyped_predicate]
      cases s <;> rfl
    -- A bit comes to a truth value, so a test may compare it with `TRUE`.
    have bit (isBit : isBit (retyped s (positioned (s.map normalizeBits))) = true) :
        ∃ truth, e.bitValue columns (.mk s) .predicate = Truth.value truth := by
      apply e.bitValue_truth booleans _ condition
      rw [retyped_boolean isBit] at isBit
      have typed := (Bool.and_eq_true_iff.mp isBit).1
      have layer := (Node.isCondition_mk.mp condition).1
      unfold Node.isTruth
      cases s <;> first | exact Bool.or_eq_true_iff.mpr (.inl typed) | cases layer
    rw [normalizeBits_mk, value_atPosition e equal (fun isBit => core ▸ bit isBit), core, predicate,
      Engine.bitValue_predicate, Engine.bitValue_mk]

end Amend

/-! ### Where the two agree -/

/-- What two values are to have in common. -/
inductive Demand where
  | truth
  | falsity
  | value
  deriving DecidableEq

namespace Demand

def opposite : Demand → Demand
  | .truth => .falsity
  | .falsity => .truth
  | .value => .value

def Met (v w : Value) : Demand → Prop
  | .truth => v.bool? = some true ↔ w.bool? = some true
  | .falsity => v.bool? = some false ↔ w.bool? = some false
  | .value => v = w

variable {d : Demand} {v w v' w' : Value}

theorem met_of_eq (same : v = w) : d.Met v w := by
  subst same
  cases d <;> simp [Met]

theorem met_not (e : Engine) (met : d.opposite.Met v w) : d.Met (e.unary .not v) (e.unary .not w) := by
  cases d with
  | truth => simpa [Met, opposite, Engine.unary, Truth.map_not] using met
  | falsity => simpa [Met, opposite, Engine.unary, Truth.map_not] using met
  | value => exact congrArg (e.unary .not) met

theorem met_connective (e : Engine) {op : BinaryOp} (logical : op.isLogical = true) (left : d.Met v w)
    (right : d.Met v' w') : d.Met (e.binary op v v') (e.binary op w w') := by
  obtain rfl | rfl : op = .and ∨ op = .or := by cases op <;> simp_all [BinaryOp.isLogical]
  · cases d with
    | truth => simpa [Met, Engine.binary, Truth.both_true] using and_congr left right
    | falsity => simpa [Met, Engine.binary, Truth.both_false] using or_congr left right
    | value => exact congrArg₂ (e.binary .and) left right
  · cases d with
    | truth => simpa [Met, Engine.binary, Truth.either_true] using or_congr left right
    | falsity => simpa [Met, Engine.binary, Truth.either_false] using and_congr left right
    | value => exact congrArg₂ (e.binary .or) left right

end Demand

namespace Engine

variable (e : Engine) (columns : Column → Value)

/-- A child that stands as a value, with what it says of itself. The bit for a test says whether it is true, so the test
is not unknown where more than its truth counts. -/
def stands (c : Node × (Demand → Bool)) (d : Demand) : Bool :=
  if c.1.isPredicate then (d = .truth || !(e.value columns c.1).isNull) && c.2 .truth else c.2 d

def steadyLayer : Shape (Node × (Demand → Bool)) → Demand → Bool
  | .binary op left right _, d =>
    if op.isLogical then left.2 d && right.2 d else e.stands columns left .value && e.stands columns right .value
  | .unary .not operand _, d => operand.2 d.opposite
  | .unary _ operand _, _ => e.stands columns operand .value
  | .conditional branches otherwise _, d =>
    -- A condition counts where it is true, and a result or what is left where it may be taken.
    branches.all (fun b => b.condition.2 .truth &&
        (e.value columns b.condition.1 ≠ .bool true || e.stands columns b.result d)) &&
      (branches.any (fun b => e.value columns b.condition.1 = .bool true) || otherwise.all (e.stands columns · d))
  | _, _ => true

/-- No test that stands as a value is unknown on this row where that shows. -/
def steady : Node → Demand → Bool := Node.para (e.steadyLayer columns)

theorem steady_mk (s : Shape Node) :
    e.steady columns (.mk s) = e.steadyLayer columns (s.map fun c => (c, e.steady columns c)) := Node.para_mk _ s

variable {columns}

/-- A test has a truth value, with or without bits. -/
theorem value_truth {n : Node} (condition : n.isCondition = true) (test : n.isPredicate = true) :
    ∃ truth, e.value columns n = Truth.value truth := by
  cases n with
  | mk s =>
    have layer := (Node.isCondition_mk.mp condition).1
    rw [value_mk]
    cases s with
    | binary op left right type => exact e.binary_truth layer _ _
    | unary op operand type => exact e.unary_truth (of_decide_eq_true layer) _
    | _ => first | cases test | cases layer

theorem stands_met {n : Node} (condition : n.isCondition = true)
    (met : ∀ d, e.steady columns n d = true → d.Met (e.value columns n) (e.bitValue columns n .predicate)) {d : Demand}
    (stands : e.stands columns (n, e.steady columns n) d = true) :
    d.Met (e.value columns n) (e.bitValue columns n .value) := by
  rw [bitValue_value]
  by_cases test : n.isPredicate = true
  · rw [if_pos test]
    obtain ⟨truth, comes⟩ : ∃ truth, e.value columns n = Truth.value truth := e.value_truth condition test
    -- A test in the place of a value takes null for false, which only a demand for truth passes over.
    obtain ⟨known, steady⟩ : (d = .truth ∨ (e.value columns n).isNull = false) ∧ e.steady columns n .truth = true := by
      simpa [Engine.stands, test] using stands
    have same : e.value columns n = .bool true ↔ e.bitValue columns n .predicate = .bool true := by
      simpa only [Demand.Met, Value.bool_eq_some] using met .truth steady
    rcases known with rfl | known
    · simpa [Demand.Met, Value.bool_eq_some] using same
    · apply Demand.met_of_eq
      simp only [← same]
      rw [comes] at known ⊢
      rcases truth with _ | _ | _
      · cases known
      · rfl
      · rfl
  · rw [if_neg test]
    exact met d (by simpa [Engine.stands, test] using stands)

theorem choose_met {d : Demand} {otherwise : Option Node} : ∀ {branches : List (Branch Node)},
    (∀ b ∈ branches, Demand.truth.Met (e.value columns b.condition) (e.bitValue columns b.condition .predicate) ∧
      (e.value columns b.condition = .bool true → d.Met (e.value columns b.result) (e.bitValue columns b.result .value))) →
    ((∀ b ∈ branches, e.value columns b.condition ≠ .bool true) →
      ∀ n ∈ otherwise, d.Met (e.value columns n) (e.bitValue columns n .value)) →
    d.Met (choose (branches.map (·.map (e.value columns))) (otherwise.map (e.value columns)))
      (choose (branches.map fun b => ⟨e.bitValue columns b.condition .predicate, e.bitValue columns b.result .value⟩)
        (otherwise.map (e.bitValue columns · .value)))
  | [], _, last => by
    cases otherwise with
    | none => exact Demand.met_of_eq rfl
    | some n => exact last (fun _ member => absurd member List.not_mem_nil) n rfl
  | b :: rest, each, last => by
    obtain ⟨condition, result⟩ := each b List.mem_cons_self
    simp only [Demand.Met, Value.bool_eq_some] at condition
    simp only [List.map_cons, choose_cons, Branch.map]
    -- Conditions are read for truth alone, so both readings take the same branch.
    by_cases holds : e.value columns b.condition = .bool true
    · rw [if_pos holds, if_pos (condition.mp holds)]
      exact result holds
    · rw [if_neg holds, if_neg (mt condition.mpr holds)]
      apply choose_met fun c member => each c (List.mem_cons_of_mem _ member)
      intro none
      exact last (List.forall_mem_cons.mpr ⟨holds, none⟩)

theorem steady_met (n : Node) : n.isCondition = true → ∀ d, e.steady columns n d = true →
    d.Met (e.value columns n) (e.bitValue columns n .predicate) := by
  -- The demand is left open, for operands meet other demands than the whole.
  induction n using Node.inductNode with
  | step s each =>
    intro condition d steady
    obtain ⟨layer, below⟩ := Node.isCondition_mk.mp condition
    have met {c : Node} (child : c ∈ s.children) := each c child (below c child)
    have standing {c : Node} (child : c ∈ s.children) {d : Demand} := e.stands_met (below c child) (met child) (d := d)
    rw [steady_mk] at steady
    rw [value_mk, bitValue_predicate]
    cases s with
    | binary op left right type =>
      have first := List.mem_cons_self (a := left) (l := [right])
      have second : right ∈ [left, right] := by simp
      simp only [Shape.map, steadyLayer] at steady
      -- The operands of a connective are tests and meet a demand of their own; those of any other operator are values.
      by_cases logical : op.isLogical = true
      · simp only [logical, if_true, Bool.and_eq_true] at steady
        simp only [Shape.map, Amend.positioned, logical, if_true]
        exact Demand.met_connective e logical (met first d steady.1) (met second d steady.2)
      · simp only [logical, Bool.false_eq_true, if_false, Bool.and_eq_true] at steady
        simp only [Shape.map, Amend.positioned, logical, Bool.false_eq_true, if_false]
        exact Demand.met_of_eq (congrArg₂ (e.binary op) (standing first steady.1) (standing second steady.2))
    | unary op operand type =>
      have child : operand ∈ [operand] := List.mem_singleton_self _
      cases op with
      | not => exact Demand.met_not e (met child _ steady)
      | negate => exact Demand.met_of_eq (congrArg (e.unary .negate) (standing child steady))
      | isNull => exact Demand.met_of_eq (congrArg (e.unary .isNull) (standing child steady))
      | isNotNull => exact Demand.met_of_eq (congrArg (e.unary .isNotNull) (standing child steady))
    | conditional branches otherwise type =>
      simp only [Shape.map, steadyLayer, Bool.and_eq_true, Bool.or_eq_true, List.all_map, List.any_map, List.all_eq_true,
        List.any_eq_true, Function.comp_apply, Branch.map, decide_eq_true_eq, Option.all_map, Option.all_eq_true] at steady
      obtain ⟨taken, left⟩ := steady
      obtain ⟨conditions, -⟩ := Shape.forall_conditional.mp fun c child d => met child d
      obtain ⟨results, rest⟩ := Shape.forall_conditional.mp fun c child d => standing child (d := d)
      simp only [Shape.map, Amend.positioned, List.map_map, Option.map_map]
      apply e.choose_met
      · intro b member
        obtain ⟨condition, result⟩ := taken b member
        refine ⟨(conditions b member).1 .truth condition, fun holds => ?_⟩
        -- A result counts on no row on which its condition does not hold.
        exact (results b member).2 d (result.resolve_left (not_not_intro holds))
      · intro none n given
        obtain ⟨b, member, holds⟩ | all := left
        · exact absurd holds (none b member)
        · exact rest n given d (all n given)
    | constant value type => exact Demand.met_of_eq rfl
    | column c => exact Demand.met_of_eq rfl
    | _ => cases layer

end Engine

namespace Amend

/-- A condition is true on the same rows once bits are normalized, those apart on which an unknown test shows. -/
theorem normalizeBits_rows {e : Engine} {columns : Column → Value} {n : Node} (condition : n.isCondition = true)
    (equal : ∀ b, e.compare .eq (.bool b) (.bool true) = some b)
    (booleans : ∀ c : Column, c.type.isBoolean = true → ∃ truth, columns c = Truth.value truth)
    (steady : e.steady columns n .truth = true) :
    e.value columns (normalizeBits n .predicate) = .bool true ↔ e.value columns n = .bool true := by
  rw [value_normalizeBits e equal booleans n condition .predicate]
  have met := e.steady_met n condition .truth steady
  simp only [Demand.Met, Value.bool_eq_some] at met
  exact met.symm

/-- Tests that are compared and tested for null, and an unknown one among the conditions of a `CASE`. -/
theorem normalizeBits_rows_tests :
    let e := Engine.folding fun _ => { names := fun _ => false, rows := [] }
    let columns : Column → Value := fun c =>
      if c.name = "x" && c.type = .int32 then .int32 1 else if c.name = "flag" then .bool true else .null
    let x : Node := .column ⟨"t0", "x", .int32⟩
    let y : Node := .column ⟨"t0", "y", .int32⟩
    let flag : Node := .column ⟨"t0", "flag", .boolean⟩
    let n : Node := .both (.equal (.equal x (.literal (.int32 1))) flag)
      (.both (.negation (.ofUnary .isNull (.equal x (.literal (.int32 2)))))
        (.conditional [⟨.equal x y, .literal (.bool false)⟩] (some flag) .boolean))
    n.isCondition = true ∧ (∀ b, e.compare .eq (.bool b) (.bool true) = some b) ∧
      (∀ c : Column, c.type.isBoolean = true → ∃ truth, columns c = Truth.value truth) ∧
      e.steady columns n .truth = true ∧ e.value columns n = .bool true ∧
      e.value columns (normalizeBits n .predicate) = .bool true := by
  intro e columns x y flag n
  have condition : n.isCondition = true := by decide +kernel
  have equal : ∀ b, e.compare .eq (.bool b) (.bool true) = some b := fun b => by cases b <;> rfl
  have booleans : ∀ c : Column, c.type.isBoolean = true → ∃ truth, columns c = Truth.value truth := by
    intro c typed
    have other : c.type ≠ .int32 := fun same => by rw [same] at typed; cases typed
    by_cases named : c.name = "flag"
    · exact ⟨some true, by simp [columns, other, named, Truth.value]⟩
    · exact ⟨none, by simp [columns, other, named, Truth.value]⟩
  have steady : e.steady columns n .truth = true := by decide +kernel
  have holds : e.value columns n = .bool true := by decide +kernel
  exact ⟨condition, equal, booleans, steady, holds, (normalizeBits_rows condition equal booleans steady).mpr holds⟩

/-- A null test of a comparison that is unknown: the bit that stands for it is not null. -/
theorem nullTest_lost :
    let e := Engine.folding fun _ => { names := fun _ => false, rows := [] }
    let columns : Column → Value := fun _ => .null
    let n : Node := .unary .isNull (.equal (.column ⟨"t0", "x", .int32⟩) (.column ⟨"t0", "y", .int32⟩)) .boolean
    n.isCondition = true ∧ (∀ b, e.compare .eq (.bool b) (.bool true) = some b) ∧
      (∀ c : Column, c.type.isBoolean = true → ∃ truth, columns c = Truth.value truth) ∧
      e.value columns n = .bool true ∧ e.value columns (normalizeBits n .predicate) = .bool false := by
  refine ⟨by decide +kernel, fun b => ?_, fun _ _ => ⟨none, rfl⟩, by decide +kernel, by decide +kernel⟩
  cases b <;> rfl

end Amend

end QueryTree
