import QueryTree.Number.Whole
import QueryTree.Proofs.Node.Parts
import QueryTree.Proofs.Rows.Meaning

/-! What an expression over one row comes to, where it may fail.

An expression has an outcome when nothing in it fails: no sum is out of range, nothing is divided by zero, and what
stands in a connective is a boolean or null. A null in a comparison or in arithmetic makes it null. Whether an
operand is evaluated that no longer matters is up to the database, which may be eager for one kind of expression and
not for another; where it is not, it goes from the left.

An outcome is kept when there is one: a tree that fails may be replaced by any other.
-/

set_option autoImplicit false

namespace QueryTree

/-! ### Values -/

namespace Value

/-- What stands in a connective; nothing for a value that may not. -/
def truth? : Value → Option (Option Bool)
  | .bool b => some (some b)
  | .null => some none
  | _ => none

def whole? : Value → Option Int
  | .int32 n => some n.toInt
  | .int64 n => some n.toInt
  | _ => none

/-- The forms that literals of an elementary expression have. -/
def isElementary : Value → Bool
  | .null | .bool _ | .int32 _ | .int64 _ => true
  | _ => false

def ofInt32? (n : Int) : Option Value := if fitsInt32 n then some (.int32 (.ofInt n)) else none

def ofInt64? (n : Int) : Option Value := if fitsInt64 n then some (.int64 (.ofInt n)) else none

end Value

namespace BinaryOp

/-- What a comparison says of two numbers. -/
def relates (op : BinaryOp) (x y : Int) : Bool :=
  match op with
  | .eq => x = y
  | .notEq => x ≠ y
  | .lt => x < y
  | .ltEq => x ≤ y
  | .gt => y < x
  | .gtEq => y ≤ x
  | _ => false

/-- Arithmetic without a range. Division goes towards zero, and there is none by zero. -/
def unbounded? (op : BinaryOp) (x y : Int) : Option Int :=
  match op with
  | .add => some (x + y)
  | .subtract => some (x - y)
  | .multiply => some (x * y)
  | .divide => if y = 0 then none else some (x.tdiv y)
  | .modulo => if y = 0 then none else some (x.tmod y)
  | _ => none

end BinaryOp

namespace Truth

/-- What one side of a connective decides it by: true for a disjunction, false for a conjunction. -/
def decisive (op : BinaryOp) : Bool := op = .or

def connect (op : BinaryOp) (a b : Option Bool) : Option Bool := if op = .or then either a b else both a b

variable (op : BinaryOp) (a : Option Bool)

theorem connect_decisive : connect op (some (decisive op)) a = some (decisive op) := by
  cases op <;> rcases a with _ | _ | _ <;> rfl

theorem decisive_connect : connect op a (some (decisive op)) = some (decisive op) := by
  cases op <;> rcases a with _ | _ | _ <;> rfl

theorem connect_neutral : connect op (some !decisive op) a = a := by
  cases op <;> rcases a with _ | _ | _ <;> rfl

theorem neutral_connect : connect op a (some !decisive op) = a := by
  cases op <;> rcases a with _ | _ | _ <;> rfl

end Truth

theorem Value.truth_eq_some {v : Value} {truth : Option Bool} : v.truth? = some truth ↔ v = Truth.value truth := by
  cases v <;> rcases truth with _ | _ <;> simp [Value.truth?, Truth.value]

/-! ### Evaluation -/

/-- A row, and what is up to the database that evaluates expressions over it. Nothing is an error. -/
structure Evaluator where
  column : Column → Value
  parameter : String → Value
  /-- Expressions of this kind evaluate all their operands. -/
  eager : Kind → Bool
  /-- Comparison of values that are neither both whole numbers nor both booleans. -/
  compare : BinaryOp → Value → Value → Option Value
  /-- Arithmetic of values that are not whole numbers of one width. -/
  reckon : BinaryOp → Value → Value → Option Value
  negate : Value → Option Value

namespace Evaluator

variable (e : Evaluator)

/-- Of values that are not null. False comes before true. -/
def compareGiven (op : BinaryOp) (a b : Value) : Option Value :=
  match a, b with
  | .bool x, .bool y => some (.bool (op.relates x.toInt y.toInt))
  | a, b =>
    match a.whole?, b.whole? with
    | some x, some y => some (.bool (op.relates x y))
    | _, _ => e.compare op a b

def reckonGiven (op : BinaryOp) (a b : Value) : Option Value :=
  match a, b with
  | .int32 x, .int32 y => (op.unbounded? x.toInt y.toInt).bind Value.ofInt32?
  | .int64 x, .int64 y => (op.unbounded? x.toInt y.toInt).bind Value.ofInt64?
  | a, b => e.reckon op a b

def negateGiven : Value → Option Value
  | .int32 x => Value.ofInt32? (-x.toInt)
  | .int64 x => Value.ofInt64? (-x.toInt)
  | a => e.negate a

def connect (op : BinaryOp) (left right : Option Value) : Option Value := do
  let a ← (← left).truth?
  if a = some (Truth.decisive op) && !e.eager .binary then return Truth.value a
  let b ← (← right).truth?
  return Truth.value (Truth.connect op a b)

def operate (op : BinaryOp) (a b : Value) : Option Value :=
  if a.isNull || b.isNull then some .null
  else if op.isComparison then e.compareGiven op a b
  else e.reckonGiven op a b

def binary (op : BinaryOp) (left right : Option Value) : Option Value :=
  if op.isLogical then e.connect op left right
  else do e.operate op (← left) (← right)

def unary (op : UnaryOp) (a : Value) : Option Value :=
  match op with
  | .not => a.truth?.map fun truth => Truth.value (truth.map not)
  | .negate => if a.isNull then some .null else e.negateGiven a
  | .isNull => some (.bool a.isNull)
  | .isNotNull => some (.bool !a.isNull)

/-- The result of the first branch whose condition is true, or the one left otherwise. -/
def choose : List (Branch (Option Value)) → Option (Option Value) → Option Value
  | [], otherwise => otherwise.getD (some .null)
  | b :: rest, otherwise => do if (← b.condition) = .bool true then b.result else choose rest otherwise

/-- The first that is not null, or null. -/
def firstGiven : List (Option Value) → Option Value
  | [] => some .null
  | a :: rest => a.bind fun v => if v.isNull then firstGiven rest else some v

/-- An outcome that an eager evaluation has only where every operand has one. -/
def demand (kind : Kind) (operands : List (Option Value)) (outcome : Option Value) : Option Value :=
  if !e.eager kind || operands.all Option.isSome then outcome else none

/-- What a layer comes to, from what its children come to. -/
def layer : Shape (Option Value) → Option Value
  | .column c => some (e.column c)
  | .parameter name _ => some (e.parameter name)
  | .constant value _ => some value
  | .binary op left right _ => e.binary op left right
  | .unary op operand _ => operand.bind (e.unary op)
  | .conditional branches otherwise _ =>
    e.demand .conditional (branches.flatMap Branch.children ++ otherwise.toList) (choose branches otherwise)
  | .call .coalesce arguments _ => e.demand .call arguments (firstGiven arguments)
  | _ => none

def outcome? : Node → Option Value := Node.fold e.layer

theorem outcome_mk (s : Shape Node) : e.outcome? (.mk s) = e.layer (s.map e.outcome?) := Node.fold_mk _ s

theorem outcome_constant (value : Value) (type : DataType) : e.outcome? (.constant value type) = some value :=
  e.outcome_mk _

theorem outcome_binary (op : BinaryOp) (left right : Node) (type : DataType) :
    e.outcome? (.binary op left right type) = e.binary op (e.outcome? left) (e.outcome? right) := e.outcome_mk _

theorem outcome_unary (op : UnaryOp) (operand : Node) (type : DataType) :
    e.outcome? (.unary op operand type) = (e.outcome? operand).bind (e.unary op) := e.outcome_mk _

theorem outcome_coalesce (arguments : List Node) (type : DataType) :
    e.outcome? (.call .coalesce arguments type) =
      e.demand .call (arguments.map e.outcome?) (firstGiven (arguments.map e.outcome?)) := e.outcome_mk _

theorem outcome_conditional (branches : List (Branch Node)) (otherwise : Option Node) (type : DataType) :
    e.outcome? (.conditional branches otherwise type) =
      e.demand .conditional ((branches.flatMap Branch.children ++ otherwise.toList).map e.outcome?)
        (choose (branches.map (·.map e.outcome?)) (otherwise.map e.outcome?)) := by
  have operands := Shape.children_map e.outcome? (.conditional branches otherwise type)
  rw [outcome_mk]
  exact congrArg (e.demand .conditional · _) operands

end Evaluator

/-! ### Elementary expressions -/

/-- A layer of an expression over booleans and whole numbers. -/
def Shape.isElementary {α : Type} : Shape α → Bool
  | .column _ | .parameter .. | .binary .. | .unary .. | .conditional .. | .call .coalesce .. => true
  | .constant value _ => value.isElementary
  | _ => false

theorem Shape.isElementary_map {α β : Type} (f : α → β) (s : Shape α) : (s.map f).isElementary = s.isElementary := by
  cases s with
  | call routine arguments type => cases routine <;> rfl
  | _ => rfl

def Node.isElementary : Node → Bool := every Shape.isElementary

namespace Node

theorem isElementary_iff {s : Shape Node} :
    (Node.mk s).isElementary = true ↔ s.isElementary = true ∧ ∀ c ∈ s.children, c.isElementary = true := by
  rw [← Shape.isElementary_map (fun _ => ()) s]
  exact every_mk

theorem isElementary_constant {value : Value} {type : DataType} :
    (Node.constant value type).isElementary = value.isElementary :=
  Bool.eq_iff_iff.mpr (isElementary_iff.trans (and_iff_left fun _ member => absurd member List.not_mem_nil))

theorem isElementary_binary {op : BinaryOp} {left right : Node} {type : DataType} :
    (Node.binary op left right type).isElementary = true ↔ left.isElementary = true ∧ right.isElementary = true := by
  refine isElementary_iff.trans ((and_iff_right rfl).trans ?_)
  simp [Shape.children]

theorem isElementary_unary {op : UnaryOp} {operand : Node} {type : DataType} :
    (Node.unary op operand type).isElementary = operand.isElementary := by
  refine Bool.eq_iff_iff.mpr (isElementary_iff.trans ((and_iff_right rfl).trans ?_))
  simp [Shape.children]

theorem isElementary_coalesce {arguments : List Node} {type : DataType} :
    (Node.call .coalesce arguments type).isElementary = true ↔ ∀ n ∈ arguments, n.isElementary = true :=
  isElementary_iff.trans (and_iff_right rfl)

theorem isElementary_conditional {branches : List (Branch Node)} {otherwise : Option Node} {type : DataType} :
    (Node.conditional branches otherwise type).isElementary = true ↔
      (∀ b ∈ branches, b.condition.isElementary = true ∧ b.result.isElementary = true) ∧
        ∀ n ∈ otherwise, n.isElementary = true := by
  rw [isElementary_iff, Shape.forall_conditional]
  exact and_iff_right rfl

end Node

/-! ### Outcomes that are kept -/

/-- What the first comes to, the second comes to as well. -/
def Kept {α : Type} (before after : Option α) : Prop := ∀ v, before = some v → after = some v

namespace Kept

variable {α β : Type} {a b c : Option α}

theorem refl (a : Option α) : Kept a a := fun _ same => same

theorem trans (first : Kept a b) (second : Kept b c) : Kept a c := fun v outcome => second v (first v outcome)

theorem isSome (kept : Kept a b) (given : a.isSome = true) : b.isSome = true := by
  obtain ⟨v, rfl⟩ := Option.isSome_iff_exists.mp given
  rw [kept v rfl]
  rfl

theorem bind {f g : α → Option β} (kept : Kept a b) (each : ∀ v, Kept (f v) (g v)) : Kept (a.bind f) (b.bind g) := by
  intro v outcome
  obtain ⟨w, first, second⟩ := Option.bind_eq_some_iff.mp outcome
  exact Option.bind_eq_some_iff.mpr ⟨w, kept w first, each w v second⟩

end Kept

namespace Evaluator

variable {α : Type} {f g : α → Option Value}

theorem kept_firstGiven {as : List α} (each : ∀ a ∈ as, Kept (f a) (g a)) :
    Kept (firstGiven (as.map f)) (firstGiven (as.map g)) := by
  induction as with
  | nil => exact .refl _
  | cons a rest ih =>
    refine (each a List.mem_cons_self).bind fun v => ?_
    split
    · exact ih fun b member => each b (List.mem_cons_of_mem _ member)
    · exact .refl _

theorem firstGiven_singleton (a : Option Value) : firstGiven [a] = a := by
  rcases a with _ | v
  · rfl
  · cases v <;> rfl

theorem firstGiven_append (as bs : List (Option Value)) :
    firstGiven (as ++ bs) = (firstGiven as).bind fun v => if v.isNull then firstGiven bs else some v := by
  induction as with
  | nil => rfl
  | cons a rest ih =>
    rcases a with _ | v
    · rfl
    · cases null : v.isNull <;> simp [firstGiven, null, ih]

theorem kept_choose {branches : List (Branch α)} {otherwise : Option α}
    (each : ∀ b ∈ branches, Kept (f b.condition) (g b.condition) ∧ Kept (f b.result) (g b.result))
    (last : ∀ a ∈ otherwise, Kept (f a) (g a)) :
    Kept (choose (branches.map (·.map f)) (otherwise.map f)) (choose (branches.map (·.map g)) (otherwise.map g)) := by
  induction branches with
  | nil =>
    cases otherwise with
    | none => exact .refl _
    | some a => exact last a rfl
  | cons b rest ih =>
    obtain ⟨condition, result⟩ := each b List.mem_cons_self
    refine condition.bind fun v => ?_
    split
    · exact result
    · exact ih fun c member => each c (List.mem_cons_of_mem _ member)

variable (e : Evaluator)

theorem demand_some {kind : Kind} {operands : List (Option Value)} {a : Option Value} {v : Value} :
    e.demand kind operands a = some v ↔ (e.eager kind = true → ∀ x ∈ operands, x.isSome = true) ∧ a = some v := by
  unfold demand
  cases e.eager kind <;> simp

theorem kept_demand {kind : Kind} {before after : List (Option Value)} {a b : Option Value}
    (given : e.eager kind = true → (∀ x ∈ before, x.isSome = true) → ∀ x ∈ after, x.isSome = true) (kept : Kept a b) :
    Kept (e.demand kind before a) (e.demand kind after b) := by
  intro v outcome
  obtain ⟨all, outcome⟩ := e.demand_some.mp outcome
  exact e.demand_some.mpr ⟨fun eager => given eager (all eager), kept v outcome⟩

theorem isSome_kept {as : List α} (each : ∀ a ∈ as, Kept (f a) (g a)) (given : ∀ x ∈ as.map f, x.isSome = true) :
    ∀ x ∈ as.map g, x.isSome = true := by
  rw [List.forall_mem_map] at given ⊢
  exact fun a member => (each a member).isSome (given a member)

theorem connect_some {op : BinaryOp} {left right : Option Value} {v : Value} (outcome : e.connect op left right = some v) :
    ∃ a, left = some (Truth.value a) ∧ (a = some (Truth.decisive op) ∧ v = Truth.value a ∨
      ∃ b, right = some (Truth.value b) ∧ v = Truth.value (Truth.connect op a b)) := by
  obtain ⟨w, first, outcome⟩ := Option.bind_eq_some_iff.mp outcome
  obtain ⟨a, truth, outcome⟩ := Option.bind_eq_some_iff.mp outcome
  refine ⟨a, Value.truth_eq_some.mp truth ▸ first, ?_⟩
  split at outcome
  · rename_i settled
    cases outcome
    exact .inl ⟨of_decide_eq_true (Bool.and_eq_true_iff.mp settled).1, rfl⟩
  · obtain ⟨u, second, outcome⟩ := Option.bind_eq_some_iff.mp outcome
    obtain ⟨b, truth, outcome⟩ := Option.bind_eq_some_iff.mp outcome
    cases outcome
    exact .inr ⟨b, Value.truth_eq_some.mp truth ▸ second, rfl⟩

theorem not_some {w v : Value} (outcome : e.unary .not w = some v) :
    ∃ truth, w = Truth.value truth ∧ v = Truth.value (truth.map not) := by
  obtain ⟨truth, given, rfl⟩ := Option.map_eq_some_iff.mp outcome
  exact ⟨truth, Value.truth_eq_some.mp given, rfl⟩

theorem kept_binary {op : BinaryOp} {a b c d : Option Value} (left : Kept a b) (right : Kept c d) :
    Kept (e.binary op a c) (e.binary op b d) := by
  unfold binary
  split
  · refine left.bind fun v => (Kept.refl v.truth?).bind fun truth => ?_
    split
    · exact .refl _
    · exact right.bind fun _ => .refl _
  · exact left.bind fun _ => right.bind fun _ => .refl _

/-- Children that keep their outcomes keep that of the layer. -/
theorem kept_layer {s : Shape α} (each : ∀ a ∈ s.children, Kept (f a) (g a)) :
    Kept (e.layer (s.map f)) (e.layer (s.map g)) := by
  cases s with
  | binary op left right type =>
    exact e.kept_binary (each left (by simp [Shape.children])) (each right (by simp [Shape.children]))
  | unary op operand type => exact (each operand (by simp [Shape.children])).bind fun _ => .refl _
  | conditional branches otherwise type =>
    have operands (h : α → Option Value) := Shape.children_map h (.conditional branches otherwise type)
    simp only [Shape.children, Shape.map] at operands
    simp only [Shape.map, layer, operands]
    obtain ⟨inBranches, last⟩ := Shape.forall_conditional.mp each
    exact e.kept_demand (fun _ => isSome_kept each) (kept_choose inBranches last)
  | call routine arguments type =>
    cases routine with
    | coalesce => exact e.kept_demand (fun _ => isSome_kept each) (kept_firstGiven each)
    | _ => exact .refl _
  | _ => exact .refl _

end Evaluator

end QueryTree
