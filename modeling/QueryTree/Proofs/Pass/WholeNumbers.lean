import QueryTree.Proofs.Node.Erasure
import QueryTree.Proofs.Pass.Outcomes

/-! Arithmetic of whole-number literals.

An expression of literals of one width comes down to one literal when every result on the way is in the range of that
width, reckoned without a range. Of a remainder the quotient is a result on the way too. Where one is out of range, or
there is none, the operator stays, and so does all that it is part of, while the operands are folded.
-/

set_option autoImplicit false

namespace QueryTree

/-- How wide the whole numbers of an expression are. -/
inductive Width where
  | int32
  | int64
  deriving DecidableEq, Repr

namespace Width

def fits : Width → Int → Bool
  | .int32 => fitsInt32
  | .int64 => fitsInt64

def value : Width → Int → Value
  | .int32, x => .int32 (.ofInt x)
  | .int64, x => .int64 (.ofInt x)

def type : Width → DataType
  | .int32 => .int32
  | .int64 => .int64

def holds : Width → Value → Bool
  | .int32, .int32 _ | .int64, .int64 _ => true
  | _, _ => false

variable {w : Width} {x : Int} {v : Value}

theorem fits_iff : w.fits x = true ↔
    match w with
    | .int32 => -2147483648 ≤ x ∧ x < 2147483648
    | .int64 => -9223372036854775808 ≤ x ∧ x < 9223372036854775808 := by
  cases w with
  | int32 =>
    simp only [fits, fitsInt32, Bool.and_eq_true, decide_eq_true_eq]
    omega
  | int64 =>
    simp only [fits, fitsInt64, Bool.and_eq_true, decide_eq_true_eq]
    omega

theorem holds_value (w : Width) (x : Int) : w.holds (w.value x) = true := by cases w <;> rfl

theorem value_dataType (w : Width) (x : Int) : (w.value x).dataType = w.type := by cases w <;> rfl

theorem value_notNull (w : Width) (x : Int) : (w.value x).isNull = false := by cases w <;> rfl

theorem toInt_int32 (fits : Width.int32.fits x = true) : (Int32.ofInt x).toInt = x := by
  obtain ⟨low, high⟩ := fits_iff.mp fits
  exact Int32.toInt_ofInt_of_le low high

theorem toInt_int64 (fits : Width.int64.fits x = true) : (Int64.ofInt x).toInt = x := by
  obtain ⟨low, high⟩ := fits_iff.mp fits
  exact Int64.toInt_ofInt_of_le low high

theorem whole_value (fits : w.fits x = true) : (w.value x).whole? = some x := by
  cases w with
  | int32 => exact congrArg some (toInt_int32 fits)
  | int64 => exact congrArg some (toInt_int64 fits)

theorem value_of_holds (holds : w.holds v = true) : ∃ x, w.fits x = true ∧ v = w.value x := by
  cases w with
  | int32 =>
    cases v with
    | int32 n => exact ⟨n.toInt, fits_iff.mpr ⟨n.le_toInt, n.toInt_lt⟩, by simp [value]⟩
    | _ => cases holds
  | int64 =>
    cases v with
    | int64 n => exact ⟨n.toInt, fits_iff.mpr ⟨n.le_toInt, n.toInt_lt⟩, by simp [value]⟩
    | _ => cases holds

end Width

/-! ### Exact results -/

def Shape.isArithmetic (w : Width) {α : Type} : Shape α → Bool
  | .constant value _ => w.holds value
  | .binary op _ _ _ => op.isArithmetic
  | .unary op _ _ => op = .negate
  | _ => false

namespace Node

/-- Built from literals of this width by the five operators and negation. -/
def isArithmetic (w : Width) : Node → Bool := every (Shape.isArithmetic w)

/-- What an expression comes to without a range. -/
def exactly? : Node → Option Int := fold fun
  | .constant value _ => value.whole?
  | .binary op left right _ => do op.unbounded? (← left) (← right)
  | .unary .negate operand _ => operand.map fun x => -x
  | _ => none

/-- What is reckoned at a node: its result, and for a remainder the quotient before it. -/
def results : Node → List (Option Int)
  | .binary .modulo left right type =>
    [exactly? (.binary .divide left right type), exactly? (.binary .modulo left right type)]
  | n => [n.exactly?]

/-- Every result on the way is there and fits. -/
def InRange (w : Width) (n : Node) : Prop := ∀ m ∈ n.subtrees, ∀ result ∈ m.results, result.any w.fits = true

instance (w : Width) (n : Node) : Decidable (n.InRange w) :=
  inferInstanceAs (Decidable (∀ m ∈ n.subtrees, ∀ result ∈ m.results, result.any w.fits = true))

variable {w : Width}

theorem exact_constant (value : Value) (type : DataType) : exactly? (.constant value type) = value.whole? := fold_mk _ _

theorem exact_binary (op : BinaryOp) (left right : Node) (type : DataType) :
    exactly? (.binary op left right type) = left.exactly?.bind fun x => right.exactly?.bind fun y => op.unbounded? x y :=
  fold_mk _ _

theorem exact_negation (operand : Node) (type : DataType) :
    exactly? (.unary .negate operand type) = operand.exactly?.map fun x => -x := fold_mk _ _

theorem exact_mem_results (n : Node) : n.exactly? ∈ n.results := by
  unfold results
  split <;> simp

theorem inRange_mk {s : Shape Node} : (Node.mk s).InRange w ↔
    (∀ result ∈ (Node.mk s).results, result.any w.fits = true) ∧ ∀ c ∈ s.children, c.InRange w := by
  simp only [InRange, subtrees_mk, List.forall_mem_cons, List.forall_mem_flatMap]

theorem InRange.subtree {n m : Node} (inRange : n.InRange w) (member : m ∈ n.subtrees) : m.InRange w :=
  inherited (fun _ here => (inRange_mk.mp here).2) inRange member

theorem isArithmetic_mk {s : Shape Node} :
    (Node.mk s).isArithmetic w = true ↔ s.isArithmetic w = true ∧ ∀ c ∈ s.children, c.isArithmetic w = true := by
  have layer : s.bare.isArithmetic w = s.isArithmetic w := by cases s <;> rfl
  rw [← layer]
  exact every_mk

theorem isArithmetic_subtree {n m : Node} (arithmetic : n.isArithmetic w = true) (member : m ∈ n.subtrees) :
    m.isArithmetic w = true :=
  inherited (P := fun n => n.isArithmetic w = true) (fun _ here => (isArithmetic_mk.mp here).2) arithmetic member

end Node

/-! ### One operator -/

namespace Pass

variable {w : Width} {x y : Int}

/-- What an operator is reckoned by way of. -/
def stages (op : BinaryOp) (x y : Int) : List (Option Int) :=
  if op = .modulo then [BinaryOp.divide.unbounded? x y, op.unbounded? x y] else [op.unbounded? x y]

/-- Arithmetic in a range is exact arithmetic of which every stage is in it. -/
theorem reckonWhole_stages {op : BinaryOp} (fits : w.fits y = true) :
    reckonWhole? w.fits op x y =
      if ∀ result ∈ stages op x y, result.any w.fits = true then op.unbounded? x y else none := by
  cases op with
  | add | subtract | multiply => simp [reckonWhole?, stages, BinaryOp.unbounded?]
  | divide => by_cases zero : y = 0 <;> simp [reckonWhole?, stages, BinaryOp.unbounded?, zero]
  | modulo =>
    by_cases zero : y = 0
    · simp [reckonWhole?, stages, BinaryOp.unbounded?, zero]
    · -- A remainder is in range because the divisor is, so that it is up to the quotient.
      have remainder : w.fits (x.tmod y) = true := by
        rw [Width.fits_iff] at fits ⊢
        cases w with
        | int32 => exact tmod_inRange zero fits.1 fits.2
        | int64 => exact tmod_inRange zero fits.1 fits.2
      by_cases quotient : w.fits (x.tdiv y) = true <;>
        simp [reckonWhole?, stages, BinaryOp.unbounded?, zero, remainder, quotient]
  | _ => simp [reckonWhole?, stages, BinaryOp.unbounded?]

theorem evaluateBinary_whole {op : BinaryOp} (arithmetic : op.isArithmetic = true) (left : w.fits x = true)
    (right : w.fits y = true) :
    evaluateBinary? op (w.value x) (w.value y) = (reckonWhole? w.fits op x y).map w.value := by
  have notLogical : op.isLogical = false := by cases op <;> first | rfl | cases arithmetic
  have notComparison : op.isComparison = false := by cases op <;> first | rfl | cases arithmetic
  simp only [evaluateBinary?, Width.value_notNull, notLogical, notComparison, Bool.or_false, Bool.false_eq_true,
    if_false]
  cases w with
  | int32 => simp only [Width.value, reckon?, Width.toInt_int32 left, Width.toInt_int32 right]; rfl
  | int64 => simp only [Width.value, reckon?, Width.toInt_int64 left, Width.toInt_int64 right]; rfl

theorem evaluateUnary_whole (fits : w.fits x = true) :
    evaluateUnary? .negate (w.value x) = if w.fits (-x) = true then some (w.value (-x)) else none := by
  rw [Width.fits_iff] at fits
  have outside : w.fits (-x) = true ↔ x ≠ (match w with | .int32 => -2147483648 | .int64 => -9223372036854775808) := by
    rw [Width.fits_iff]
    cases w <;> dsimp only at fits ⊢ <;> omega
  cases w with
  | int32 =>
    have least : Int32.ofInt x = Int32.minValue ↔ x = -2147483648 := by
      rw [← Int32.toInt_inj, Int32.toInt_ofInt_of_le fits.1 fits.2]
      rfl
    simp only [Width.value, evaluateUnary?, least, outside, Int32.ofInt_neg]
    by_cases same : x = -2147483648 <;> simp [same]
  | int64 =>
    have least : Int64.ofInt x = Int64.minValue ↔ x = -9223372036854775808 := by
      rw [← Int64.toInt_inj, Int64.toInt_ofInt_of_le fits.1 fits.2]
      rfl
    simp only [Width.value, evaluateUnary?, least, outside, Int64.ofInt_neg]
    by_cases same : x = -9223372036854775808 <;> simp [same]

/-! ### Whole expressions -/

theorem evaluate_none {s : Shape Node} {c : Node} (operator : s.kind = .binary ∨ s.kind = .unary)
    (child : c ∈ s.children) (notLiteral : c.constant? = none) : evaluate? (.mk s) = none := by
  cases s with
  | binary op left right type =>
    simp only [Shape.children, List.mem_cons, List.not_mem_nil, or_false] at child
    rcases child with rfl | rfl
    · simp [evaluate?, notLiteral]
    · cases first : left.constant? <;> simp [evaluate?, notLiteral, first]
  | unary op operand type =>
    obtain rfl := List.mem_singleton.mp child
    simp [evaluate?, notLiteral]
  | _ => simp [Shape.kind] at operator

theorem foldLiteral_left {n : Node} (none : evaluate? n = none) : foldLiteral n = n := by
  unfold foldLiteral
  rw [none]

theorem foldLiteral_value {n : Node} (evaluated : evaluate? n = some (w.value x)) :
    foldLiteral n = .constant (w.value x) w.type := by
  unfold foldLiteral
  rw [evaluated]
  simp [Width.value_notNull, Width.value_dataType]

theorem literals_mk (s : Shape Node) :
    literals.transform (.mk s) = foldLiteral (.mk (s.map literals.transform)) := Node.mapUp_mk foldLiteral s

/-- The literal that an expression comes down to, and the type it has. -/
def foldedTo (w : Width) (x : Int) (n : Node) : Node :=
  .constant (w.value x) (if n.isConstant then n.dataType else w.type)

/-- What becomes of an expression whose results are in range, and of any other. -/
structure Folds (w : Width) (n : Node) : Prop where
  value : n.InRange w → ∃ x, n.exactly? = some x ∧ w.fits x = true ∧ literals.transform n = foldedTo w x n
  left : ¬n.InRange w → n.isConstant = false ∧ literals.transform n = .mk (n.shape.map literals.transform)

theorem folds_constant {value : Value} {type : DataType} (holds : w.holds value = true) :
    Folds w (.constant value type) := by
  obtain ⟨x, fits, rfl⟩ := Width.value_of_holds holds
  have exact : Node.exactly? (.constant (w.value x) type) = some x :=
    (Node.exact_constant _ _).trans (Width.whole_value fits)
  refine ⟨fun _ => ⟨x, exact, fits, literals_mk _⟩, fun outside => absurd ?_ outside⟩
  refine Node.inRange_mk.mpr ⟨fun result member => ?_, fun _ child => absurd child List.not_mem_nil⟩
  obtain rfl := List.mem_singleton.mp member
  rw [exact]
  exact fits

theorem left_of_operand {s : Shape Node} {c : Node} (operator : s.kind = .binary ∨ s.kind = .unary)
    (child : c ∈ s.children) (folds : Folds w c) (outside : ¬c.InRange w) :
    literals.transform (.mk s) = .mk (s.map literals.transform) := by
  obtain ⟨notLiteral, left⟩ := folds.left outside
  refine (literals_mk s).trans (foldLiteral_left ?_)
  apply evaluate_none (by rwa [Shape.kind_map]) (c := literals.transform c)
  · rw [Shape.children_map]
    exact List.mem_map_of_mem child
  · rw [left]
    obtain ⟨t⟩ := c
    cases t <;> first | rfl | cases notLiteral

theorem folds_operator {s : Shape Node} (operator : s.kind = .binary ∨ s.kind = .unary)
    (each : ∀ c ∈ s.children, Folds w c)
    (reckoned : (∀ c ∈ s.children, c.InRange w) → evaluate? (.mk (s.map literals.transform)) =
      if ∀ result ∈ (Node.mk s).results, result.any w.fits = true then (Node.mk s).exactly?.map w.value else none) :
    Folds w (.mk s) := by
  have notLiteral : (Node.mk s).isConstant = false := by cases s <;> first | rfl | simp [Shape.kind] at operator
  -- With an operand left as it is there is nothing to reckon with. Otherwise only the range of the operator's own
  -- results decides.
  by_cases below : ∀ c ∈ s.children, c.InRange w
  · have evaluated := reckoned below
    refine ⟨fun inside => ?_, fun outside => ⟨notLiteral, ?_⟩⟩
    · have stages := (Node.inRange_mk.mp inside).1
      obtain ⟨x, exact, fits⟩ := (Option.any_eq_true _ _).mp (stages _ (Node.exact_mem_results _))
      rw [if_pos stages, exact] at evaluated
      refine ⟨x, exact, fits, ?_⟩
      rw [literals_mk, foldLiteral_value evaluated, foldedTo, notLiteral]
      rfl
    · rw [if_neg fun stages => outside (Node.inRange_mk.mpr ⟨stages, below⟩)] at evaluated
      rw [literals_mk, foldLiteral_left evaluated]
      rfl
  · push Not at below
    obtain ⟨c, child, outside⟩ := below
    exact ⟨fun inside => absurd ((Node.inRange_mk.mp inside).2 c child) outside,
      fun _ => ⟨notLiteral, left_of_operand operator child (each c child) outside⟩⟩

theorem results_binary {op : BinaryOp} {left right : Node} {type : DataType} (first : left.exactly? = some x)
    (second : right.exactly? = some y) : (Node.binary op left right type).results = stages op x y := by
  have exact (op : BinaryOp) : Node.exactly? (.binary op left right type) = op.unbounded? x y := by
    rw [Node.exact_binary, first, second]
    rfl
  cases op <;> simp only [Node.results, stages, exact] <;> rfl

theorem folds_binary {op : BinaryOp} {left right : Node} {type : DataType} (arithmetic : op.isArithmetic = true)
    (onLeft : Folds w left) (onRight : Folds w right) : Folds w (.binary op left right type) := by
  refine folds_operator (.inl rfl) (by simp [Shape.children, onLeft, onRight]) fun below => ?_
  obtain ⟨x, exactLeft, fitsLeft, foldedLeft⟩ := onLeft.value (below left (by simp [Shape.children]))
  obtain ⟨y, exactRight, fitsRight, foldedRight⟩ := onRight.value (below right (by simp [Shape.children]))
  have operands : evaluate? (.binary op (literals.transform left) (literals.transform right) type) =
      evaluateBinary? op (w.value x) (w.value y) := by rw [foldedLeft, foldedRight]; rfl
  have exact : Node.exactly? (.binary op left right type) = op.unbounded? x y := by
    rw [Node.exact_binary, exactLeft, exactRight]
    rfl
  rw [results_binary exactLeft exactRight, exact]
  refine operands.trans ?_
  rw [evaluateBinary_whole arithmetic fitsLeft fitsRight, reckonWhole_stages fitsRight]
  split <;> rfl

theorem folds_negation {operand : Node} {type : DataType} (folds : Folds w operand) :
    Folds w (.unary .negate operand type) := by
  refine folds_operator (.inr rfl) (by simp [Shape.children, folds]) fun below => ?_
  obtain ⟨x, exact, fits, folded⟩ := folds.value (below operand (by simp [Shape.children]))
  have negated : Node.exactly? (.unary .negate operand type) = some (-x) := by
    rw [Node.exact_negation, exact]
    rfl
  have results : Node.results (.unary .negate operand type) = [some (-x)] := congrArg (fun x => [x]) negated
  have operands : evaluate? (.unary .negate (literals.transform operand) type) =
      evaluateUnary? .negate (w.value x) := by rw [folded]; rfl
  rw [results, negated]
  refine operands.trans ?_
  simp [evaluateUnary_whole fits]

theorem arithmetic_folds {n : Node} (arithmetic : n.isArithmetic w = true) : Folds w n := by
  induction n using Node.inductNode with
  | step s ih =>
    obtain ⟨here, below⟩ := Node.isArithmetic_mk.mp arithmetic
    have each (c : Node) (child : c ∈ s.children) : Folds w c := ih c child (below c child)
    cases s with
    | constant value type => exact folds_constant here
    | binary op left right type =>
      exact folds_binary here (each left (by simp [Shape.children])) (each right (by simp [Shape.children]))
    | unary op operand type =>
      obtain rfl : op = .negate := of_decide_eq_true here
      exact folds_negation (each operand (by simp [Shape.children]))
    | _ => cases here

theorem left_mem_subtrees {n m : Node} (arithmetic : n.isArithmetic w = true) (member : m ∈ n.subtrees)
    (outside : ¬m.InRange w) : literals.transform m ∈ (literals.transform n).subtrees := by
  induction n using Node.inductNode with
  | step s ih =>
    have below := (Node.isArithmetic_mk.mp arithmetic).2
    rw [Node.subtrees_mk] at member
    rcases List.mem_cons.mp member with rfl | inside
    · exact Node.self_mem_subtrees _
    · obtain ⟨c, child, inside⟩ := List.mem_flatMap.mp inside
      -- All that a node is part of is out of range with it.
      have whole : ¬(Node.mk s).InRange w := fun inRange =>
        outside (((Node.inRange_mk.mp inRange).2 c child).subtree inside)
      rw [((arithmetic_folds arithmetic).left whole).2]
      apply Node.mem_subtrees_of_child (c := literals.transform c) _ (ih c child (below c child) inside)
      rw [Node.shape_mk, Shape.children_map]
      exact List.mem_map_of_mem child

/-- An expression of literals comes down to one literal just in case all results on the way are in range. That is the
exact result then, and of the same width. A part that is not in range stays, its operands folded. -/
theorem literals_exact (w : Width) {n : Node} (arithmetic : n.isArithmetic w = true) :
    ((literals.transform n).isConstant = true ↔ n.InRange w) ∧
      (n.InRange w → ∃ v, literals.transform n = .constant v (if n.isConstant then n.dataType else w.type) ∧
        w.holds v = true ∧ v.whole? = n.exactly?) ∧
      ∀ m ∈ n.subtrees, ¬m.InRange w → literals.transform m ∈ (literals.transform n).subtrees ∧
        literals.transform m = .mk (m.shape.map literals.transform) := by
  have folds := arithmetic_folds arithmetic
  have literal (inRange : n.InRange w) : ∃ v, literals.transform n =
      .constant v (if n.isConstant then n.dataType else w.type) ∧ w.holds v = true ∧ v.whole? = n.exactly? := by
    obtain ⟨x, exact, fits, folded⟩ := folds.value inRange
    exact ⟨w.value x, folded, w.holds_value x, (Width.whole_value fits).trans exact.symm⟩
  refine ⟨⟨fun folded => ?_, fun inRange => ?_⟩, literal, fun m member outside => ?_⟩
  -- Out of range the operator is left, and an operator is no literal.
  · by_contra outside
    obtain ⟨operator, left⟩ := folds.left outside
    rw [left] at folded
    obtain ⟨s⟩ := n
    cases s <;> first | cases folded; done | cases operator
  · obtain ⟨v, folded, -⟩ := literal inRange
    rw [folded]
    rfl
  · exact ⟨left_mem_subtrees arithmetic member outside,
      ((arithmetic_folds (Node.isArithmetic_subtree arithmetic member)).left outside).2⟩

/-- The least number divided by minus one is out of range, while the product beside it is folded. -/
theorem literals_exact_overflow :
    let number (x : Int) : Node := .constant (.int32 (.ofInt x)) .int32
    let overflow : Node := .binary .divide (number (-2147483648)) (number (-1)) .int32
    let sum (right : Node) : Node := .binary .add overflow right .int32
    let n := sum (.binary .multiply (number 6) (.unary .negate (number 7) .int32) .int32)
    n.isArithmetic .int32 = true ∧ ¬n.InRange .int32 ∧ (literals.transform n).isConstant = false ∧
      literals.transform n = sum (number (-42)) := by
  intro number overflow sum n
  have arithmetic : n.isArithmetic .int32 = true := by decide +kernel
  have outside : ¬n.InRange .int32 := by decide +kernel
  obtain ⟨literal, -, left⟩ := literals_exact .int32 arithmetic
  have folded : literals.transform n = sum (number (-42)) :=
    (left n (Node.self_mem_subtrees n) outside).2.trans (by decide +kernel)
  exact ⟨arithmetic, outside, eq_false_of_ne_true fun constant => outside (literal.mp constant), folded⟩

/-- Divided by minus one the least number leaves nothing, and yet the remainder stays, as the quotient is out of range. -/
theorem least_remainder_stays :
    let n : Node := .binary .modulo (.literal (.int32 (-2147483648))) (.literal (.int32 (-1))) .int32
    n.isArithmetic .int32 = true ∧ (∀ m ∈ n.subtrees, m.exactly?.any Width.int32.fits = true) ∧ n.exactly? = some 0 ∧
      (literals.transform n).isConstant = false ∧ literals.transform n = n := by
  decide +kernel

end Pass

end QueryTree
