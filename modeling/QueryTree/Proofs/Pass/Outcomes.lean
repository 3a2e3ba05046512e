import QueryTree.Pass.Standard
import QueryTree.Proofs.Pass.Rules
import QueryTree.Proofs.Rows.Outcome

/-! Passes that simplify by literals keep what an expression comes to.

Each applies one rule from the leaves up, so it is enough that the rule keeps the outcome of a node whose children are
simplified already. A rule may leave out operands that fail, but only of a node that then had no outcome.
-/

set_option autoImplicit false

namespace QueryTree

/-- Makes an elementary expression into one that comes to the same. -/
def Evaluator.Allows (e : Evaluator) (rule : Node → Node) : Prop :=
  ∀ n, n.isElementary = true → (rule n).isElementary = true ∧ Kept (e.outcome? n) (e.outcome? (rule n))

namespace Evaluator

variable {e : Evaluator} {rule : Node → Node}

theorem Allows.mapUp (allows : e.Allows rule) : e.Allows (Node.mapUp rule) := by
  intro n
  induction n using Node.inductNode with
  | step s ih =>
    intro elementary
    obtain ⟨own, below⟩ := Node.isElementary_iff.mp elementary
    have rebuilt : (Node.mk (s.map (Node.mapUp rule))).isElementary = true := by
      refine Node.isElementary_iff.mpr ⟨by rwa [Shape.isElementary_map], ?_⟩
      rw [Shape.children_map, List.forall_mem_map]
      exact fun c child => (ih c child (below c child)).1
    have kept : Kept (e.outcome? (.mk s)) (e.outcome? (.mk (s.map (Node.mapUp rule)))) := by
      rw [outcome_mk, outcome_mk, Shape.map_map]
      exact e.kept_layer fun c child => (ih c child (below c child)).2
    obtain ⟨result, outcome⟩ := allows _ rebuilt
    rw [Node.mapUp_mk]
    exact ⟨result, kept.trans outcome⟩

end Evaluator

/-! ### Literals -/

namespace Value

theorem whole_eq_integer (a : Value) : a.whole? = a.integer?.map Int64.toInt := by
  cases a <;> simp [whole?, integer?]

end Value

namespace Pass

theorem holds_compare {op : BinaryOp} (comparison : op.isComparison = true) (x y : Int) :
    holds op (compare x y) = op.relates x y := by
  have order := Int.lt_trichotomy x y
  cases op <;> simp_all [holds, BinaryOp.relates, BinaryOp.isComparison, compare_lt_iff_lt, compare_gt_iff_gt]

theorem holds_bool {op : BinaryOp} (comparison : op.isComparison = true) (x y : Bool) :
    holds op (compare x y) = op.relates x.toInt y.toInt := by
  cases op <;> cases x <;> cases y <;> first | rfl | cases comparison

theorem exact_of_reckonWhole {fits : Int → Bool} {op : BinaryOp} {a b n : Int}
    (remainder : b ≠ 0 → fits (a.tmod b) = true) (reckoned : reckonWhole? fits op a b = some n) :
    op.unbounded? a b = some n ∧ fits n = true := by
  have kept {x : Int} (inRange : (if fits x then some x else none) = some n) : x = n ∧ fits n = true := by
    split at inRange
    · rename_i fit
      cases inRange
      exact ⟨rfl, fit⟩
    · cases inRange
  unfold reckonWhole? at reckoned
  cases op with
  | add | subtract | multiply =>
    obtain ⟨rfl, fit⟩ := kept reckoned
    exact ⟨rfl, fit⟩
  | divide =>
    dsimp only at reckoned
    split at reckoned
    · cases reckoned
    · rename_i nonzero
      obtain ⟨rfl, fit⟩ := kept reckoned
      exact ⟨if_neg nonzero, fit⟩
  | modulo =>
    -- The quotient is asked to be in range, while the result is the remainder.
    dsimp only at reckoned
    split at reckoned
    · cases reckoned
    · rename_i nonzero
      obtain ⟨q, -, rfl⟩ := Option.map_eq_some_iff.mp reckoned
      exact ⟨if_neg nonzero, remainder nonzero⟩
  | _ => cases reckoned

theorem tmod_inRange {bound a b : Int} (nonzero : b ≠ 0) (low : -bound ≤ b) (high : b < bound) :
    -bound ≤ a.tmod b ∧ a.tmod b < bound := by
  have small : (a.tmod b).natAbs < b.natAbs := by
    rw [Int.natAbs_tmod]
    exact Nat.mod_lt _ (by omega)
  omega

theorem reckon_outcome (e : Evaluator) {op : BinaryOp} {a b v : Value} (elementary : a.isElementary = true)
    (reckoned : reckon? op a b = some v) : e.reckonGiven op a b = some v ∧ v.isElementary = true := by
  unfold reckon? at reckoned
  split at reckoned
  · rename_i x y
    obtain ⟨n, whole, rfl⟩ := Option.map_eq_some_iff.mp reckoned
    have remainder (nonzero : y.toInt ≠ 0) : fitsInt32 (x.toInt.tmod y.toInt) = true := by
      have range := tmod_inRange (a := x.toInt) nonzero y.le_toInt y.toInt_lt
      simp only [fitsInt32, Bool.and_eq_true, decide_eq_true_eq]
      omega
    obtain ⟨exact, fit⟩ := exact_of_reckonWhole remainder whole
    exact ⟨by simp [Evaluator.reckonGiven, exact, Value.ofInt32?, fit], rfl⟩
  · rename_i x y
    obtain ⟨n, whole, rfl⟩ := Option.map_eq_some_iff.mp reckoned
    have remainder (nonzero : y.toInt ≠ 0) : fitsInt64 (x.toInt.tmod y.toInt) = true := by
      have range := tmod_inRange (a := x.toInt) nonzero y.le_toInt y.toInt_lt
      simp only [fitsInt64, Bool.and_eq_true, decide_eq_true_eq]
      omega
    obtain ⟨exact, fit⟩ := exact_of_reckonWhole remainder whole
    exact ⟨by simp [Evaluator.reckonGiven, exact, Value.ofInt64?, fit], rfl⟩
  · cases elementary
  · cases reckoned

theorem compare_outcome (e : Evaluator) {op : BinaryOp} {a b : Value} {ordering : Ordering}
    (comparison : op.isComparison = true) (first : a.isElementary = true) (second : b.isElementary = true)
    (ordered : a.order? b = some ordering) : e.compareGiven op a b = some (.bool (holds op ordering)) := by
  have noDouble {a : Value} (elementary : a.isElementary = true) : a.isDouble = false := by
    cases a <;> first | rfl | cases elementary
  unfold Value.order? at ordered
  split at ordered
  · cases ordered
    rw [holds_bool comparison]
    rfl
  · cases first
  · rename_i notBools _
    split at ordered
    · rename_i x y integerFirst integerSecond
      cases ordered
      unfold Evaluator.compareGiven
      split
      · exact absurd rfl (notBools _ _ rfl)
      · simp only [Value.whole_eq_integer, integerFirst, integerSecond, Option.map_some, holds_compare comparison]
    · simp [noDouble first, noDouble second] at ordered

theorem connect_bools (e : Evaluator) {op : BinaryOp} (logical : op.isLogical = true) (x y : Bool) :
    e.connect op (some (.bool x)) (some (.bool y)) = some (.bool (if op = .and then x && y else x || y)) := by
  cases op <;> first | cases logical; done | skip
  all_goals
    cases x <;> cases y <;>
      simp [Evaluator.connect, Value.truth?, Truth.decisive, Truth.connect, Truth.both, Truth.either, Truth.value]

theorem evaluateBinary_outcome (e : Evaluator) {op : BinaryOp} {a b v : Value} (first : a.isElementary = true)
    (second : b.isElementary = true) (evaluated : evaluateBinary? op a b = some v) :
    e.binary op (some a) (some b) = some v ∧ v.isElementary = true := by
  unfold evaluateBinary? at evaluated
  unfold Evaluator.binary
  split at evaluated
  · cases evaluated
  · rename_i given
    split at evaluated
    · rename_i logical
      rw [if_pos logical]
      obtain ⟨x, boolFirst, evaluated⟩ := Option.bind_eq_some_iff.mp evaluated
      obtain ⟨y, boolSecond, evaluated⟩ := Option.bind_eq_some_iff.mp evaluated
      cases evaluated
      rw [Value.bool_eq_some.mp boolFirst, Value.bool_eq_some.mp boolSecond, connect_bools e logical]
      exact ⟨rfl, rfl⟩
    · rename_i notLogical
      -- Both sides are given, so the operator is applied and no null comes in.
      have operated : (do e.operate op (← some a) (← some b)) = e.operate op a b := rfl
      rw [if_neg notLogical, operated, Evaluator.operate, if_neg given]
      split at evaluated
      · rename_i comparison
        obtain ⟨ordering, ordered, rfl⟩ := Option.map_eq_some_iff.mp evaluated
        rw [if_pos comparison]
        exact ⟨compare_outcome e comparison first second ordered, rfl⟩
      · rename_i notComparison
        rw [if_neg notComparison]
        exact reckon_outcome e first evaluated

theorem evaluateUnary_outcome (e : Evaluator) {op : UnaryOp} {a v : Value} (elementary : a.isElementary = true)
    (evaluated : evaluateUnary? op a = some v) : e.unary op a = some v ∧ v.isElementary = true := by
  unfold evaluateUnary? at evaluated
  split at evaluated
  · cases evaluated
    exact ⟨rfl, rfl⟩
  · cases evaluated
    exact ⟨rfl, rfl⟩
  · cases evaluated
    exact ⟨rfl, rfl⟩
  · rename_i n
    split at evaluated
    · cases evaluated
    · rename_i notLeast
      cases evaluated
      have range := n.toInt_lt
      have least : n.toInt ≠ -2147483648 := fun same => notLeast (Int32.toInt_inj.mp same)
      -- The least number is the only one whose opposite is out of range.
      have fit : fitsInt32 (-n.toInt) = true := by
        have low := n.le_toInt
        simp only [fitsInt32, Bool.and_eq_true, decide_eq_true_eq]
        omega
      exact ⟨by simp [Evaluator.unary, Value.isNull, Evaluator.negateGiven, Value.ofInt32?, fit, Int32.ofInt_neg], rfl⟩
  · rename_i n
    split at evaluated
    · cases evaluated
    · rename_i notLeast
      cases evaluated
      have range := n.toInt_lt
      have least : n.toInt ≠ -9223372036854775808 := fun same => notLeast (Int64.toInt_inj.mp same)
      have fit : fitsInt64 (-n.toInt) = true := by
        have low := n.le_toInt
        simp only [fitsInt64, Bool.and_eq_true, decide_eq_true_eq]
        omega
      exact ⟨by simp [Evaluator.unary, Value.isNull, Evaluator.negateGiven, Value.ofInt64?, fit, Int64.ofInt_neg], rfl⟩
  · cases elementary
  · cases evaluated

end Pass

namespace Node

theorem bool_some {n : Node} {b : Bool} (literal : n.bool? = some b) : ∃ type, n = .constant (.bool b) type := by
  obtain ⟨v, found, bool⟩ := Option.bind_eq_some_iff.mp literal
  obtain rfl := Value.bool_eq_some.mp bool
  exact constant_some found

end Node

namespace Pass

open Evaluator

variable (e : Evaluator)

theorem firstGiven_literals (values : List Value) : firstGiven (values.map some) = some (Value.firstGiven values) := by
  induction values with
  | nil => rfl
  | cons v rest ih =>
    cases null : v.isNull <;> simp [firstGiven, Value.firstGiven, null] at ih ⊢
    exact ih

theorem outcomes_literals {arguments : List Node} {values : List Value}
    (literals : arguments.mapM Node.constant? = some values) : arguments.map e.outcome? = values.map some := by
  induction arguments generalizing values with
  | nil =>
    cases literals
    rfl
  | cons n rest ih =>
    rw [List.mapM_cons] at literals
    obtain ⟨v, first, literals⟩ := Option.bind_eq_some_iff.mp literals
    obtain ⟨others, later, same⟩ := Option.bind_eq_some_iff.mp literals
    cases same
    obtain ⟨type, rfl⟩ := Node.constant_some first
    simp [ih later, e.outcome_constant]

theorem firstGiven_elementary {arguments : List Node} {values : List Value}
    (elementary : ∀ n ∈ arguments, n.isElementary = true) (literals : arguments.mapM Node.constant? = some values) :
    (Value.firstGiven values).isElementary = true := by
  unfold Value.firstGiven
  cases found : values.find? fun v => !v.isNull with
  | none => rfl
  | some v =>
    obtain ⟨n, member, literal⟩ := exists_of_mapM literals v (List.mem_of_find?_eq_some found)
    obtain ⟨type, rfl⟩ := Node.constant_some literal
    exact Node.isElementary_constant.symm.trans (elementary _ member)

/-- An expression of literals comes to the value that takes its place. -/
theorem evaluate_outcome {n : Node} {v : Value} (elementary : n.isElementary = true) (evaluated : evaluate? n = some v) :
    e.outcome? n = some v ∧ v.isElementary = true := by
  unfold evaluate? at evaluated
  split at evaluated
  · rename_i op left right type
    obtain ⟨a, first, evaluated⟩ := Option.bind_eq_some_iff.mp evaluated
    obtain ⟨b, second, evaluated⟩ := Option.bind_eq_some_iff.mp evaluated
    obtain ⟨_, rfl⟩ := Node.constant_some first
    obtain ⟨_, rfl⟩ := Node.constant_some second
    simp only [Node.isElementary_binary, Node.isElementary_constant] at elementary
    rw [outcome_binary, outcome_constant, outcome_constant]
    exact evaluateBinary_outcome e elementary.1 elementary.2 evaluated
  · rename_i op operand type
    obtain ⟨a, literal, evaluated⟩ := Option.bind_eq_some_iff.mp evaluated
    obtain ⟨_, rfl⟩ := Node.constant_some literal
    simp only [Node.isElementary_unary, Node.isElementary_constant] at elementary
    rw [outcome_unary, outcome_constant]
    exact evaluateUnary_outcome e elementary evaluated
  · rename_i routine arguments type
    obtain ⟨values, literals, evaluated⟩ := Option.bind_eq_some_iff.mp evaluated
    -- Of all routines an elementary tree calls only `COALESCE`.
    cases routine with
    | coalesce =>
      cases evaluated
      rw [Node.isElementary_coalesce] at elementary
      rw [outcome_coalesce, outcomes_literals e literals, firstGiven_literals]
      exact ⟨e.demand_some.mpr ⟨fun _ => by simp, rfl⟩, firstGiven_elementary elementary literals⟩
    | _ => cases (Node.isElementary_iff.mp elementary).1
  · cases evaluated

theorem foldLiteral_allowed : e.Allows foldLiteral := by
  intro n elementary
  unfold foldLiteral
  split
  · rename_i v evaluated
    obtain ⟨outcome, form⟩ := evaluate_outcome e elementary evaluated
    rw [Node.isElementary_constant, outcome_constant, outcome]
    exact ⟨form, .refl _⟩
  · exact ⟨elementary, .refl _⟩

/-! ### Connectives -/

theorem absorbing_some {op : BinaryOp} {absorbing : Bool} (absorbs : absorbing? op = some absorbing) :
    op.isLogical = true ∧ absorbing = Truth.decisive op := by
  cases op <;> cases absorbs <;> exact ⟨rfl, rfl⟩

theorem absorb_elementary {absorbing b : Bool} {other : Node} (elementary : other.isElementary = true) :
    (absorb absorbing b other).isElementary = true := by
  unfold absorb
  split
  · exact Node.isElementary_constant
  · exact elementary

/-- A literal on the left says what the connective comes to, or that it is up to the right side. -/
theorem kept_absorbLeft (op : BinaryOp) (b : Bool) (right : Node) :
    Kept (e.connect op (some (.bool b)) (e.outcome? right)) (e.outcome? (absorb (Truth.decisive op) b right)) := by
  intro v outcome
  obtain ⟨a, first, settled⟩ := e.connect_some outcome
  obtain rfl : a = some b := by
    rcases a with _ | a <;> cases first
    rfl
  unfold absorb
  split
  · rename_i decisive
    subst decisive
    rw [Node.literal, outcome_constant]
    rcases settled with ⟨-, rfl⟩ | ⟨c, -, rfl⟩
    · rfl
    · rw [Truth.connect_decisive]
      rfl
  · rename_i neutral
    rcases settled with ⟨same, -⟩ | ⟨c, second, rfl⟩
    · exact absurd (Option.some.inj same) neutral
    · rw [Bool.eq_not.mpr neutral, Truth.connect_neutral]
      exact second

theorem kept_absorbRight (op : BinaryOp) (b : Bool) (left : Node) :
    Kept (e.connect op (e.outcome? left) (some (.bool b))) (e.outcome? (absorb (Truth.decisive op) b left)) := by
  intro v outcome
  obtain ⟨a, first, settled⟩ := e.connect_some outcome
  unfold absorb
  split
  · rename_i decisive
    subst decisive
    rw [Node.literal, outcome_constant]
    rcases settled with ⟨rfl, rfl⟩ | ⟨c, second, rfl⟩
    · rfl
    · obtain rfl : c = some (Truth.decisive op) := by
        rcases c with _ | c <;> cases second
        rfl
      rw [Truth.decisive_connect]
      rfl
  · rename_i neutral
    rcases settled with ⟨-, rfl⟩ | ⟨c, second, rfl⟩
    · exact first
    · obtain rfl : c = some b := by
        rcases c with _ | c <;> cases second
        rfl
      rw [Bool.eq_not.mpr neutral, Truth.neutral_connect]
      exact first

theorem simplifyConnective_allowed : e.Allows simplifyConnective := by
  intro n elementary
  unfold simplifyConnective
  split
  · rename_i op left right type
    have sides := Node.isElementary_binary.mp elementary
    split
    · rename_i absorbing b absorbs literal
      obtain ⟨logical, rfl⟩ := absorbing_some absorbs
      obtain ⟨_, rfl⟩ := Node.bool_some literal
      rw [outcome_binary, outcome_constant, binary, if_pos logical]
      exact ⟨absorb_elementary sides.2, kept_absorbLeft e op b right⟩
    · rename_i absorbing b absorbs _ literal
      obtain ⟨logical, rfl⟩ := absorbing_some absorbs
      obtain ⟨_, rfl⟩ := Node.bool_some literal
      rw [outcome_binary, outcome_constant, binary, if_pos logical]
      exact ⟨absorb_elementary sides.1, kept_absorbRight e op b left⟩
    · exact ⟨elementary, .refl _⟩
  · rename_i operand innerType type
    rw [Node.isElementary_unary, Node.isElementary_unary] at elementary
    refine ⟨elementary, fun v outcome => ?_⟩
    rw [outcome_unary, outcome_unary] at outcome
    obtain ⟨w, inner, outer⟩ := Option.bind_eq_some_iff.mp outcome
    obtain ⟨u, evaluated, inner⟩ := Option.bind_eq_some_iff.mp inner
    obtain ⟨truth, rfl, rfl⟩ := e.not_some inner
    obtain ⟨negated, same, rfl⟩ := e.not_some outer
    rw [evaluated]
    -- Of two negations nothing is left, also of the unknown.
    rcases truth with _ | _ | _ <;> rcases negated with _ | _ | _ <;> first | rfl | cases same
  · rename_i operand type _
    split
    · rename_i b literal
      obtain ⟨_, rfl⟩ := Node.bool_some literal
      rw [outcome_unary, outcome_constant, Node.literal, outcome_constant]
      exact ⟨Node.isElementary_constant, .refl _⟩
    · exact ⟨elementary, .refl _⟩
  · exact ⟨elementary, .refl _⟩

/-! ### Conditionals -/

/-- Branches that are never taken, and those behind one that always is, make no difference. -/
theorem kept_pruneBranches (otherwise : Option Node) (branches : List (Branch Node)) :
    Kept (choose (branches.map (·.map e.outcome?)) (otherwise.map e.outcome?))
      (choose ((pruneBranches otherwise branches).1.map (·.map e.outcome?))
        ((pruneBranches otherwise branches).2.map e.outcome?)) := by
  induction branches with
  | nil => exact .refl _
  | cons b rest ih =>
    -- A condition that is a literal decides on its branch without any row.
    have decided {value : Value} (literal : b.condition.constant? = some value) :
        choose ((b :: rest).map (·.map e.outcome?)) (otherwise.map e.outcome?) =
          if value = .bool true then e.outcome? b.result
          else choose (rest.map (·.map e.outcome?)) (otherwise.map e.outcome?) := by
      obtain ⟨_, constant⟩ := Node.constant_some literal
      simp only [List.map_cons, choose, Branch.map, constant, outcome_constant]
      rfl
    unfold pruneBranches
    split
    · rename_i always
      rw [decided always]
      exact .refl _
    · rename_i never
      rw [decided never]
      exact ih
    · rename_i never
      rw [decided never]
      exact ih
    · refine (Kept.refl (e.outcome? b.condition)).bind fun v => ?_
      split
      · exact .refl _
      · exact ih

theorem simplifyConditional_allowed : e.Allows simplifyConditional := by
  intro n elementary
  unfold simplifyConditional
  split
  · rename_i branches otherwise type
    split
    · obtain ⟨each, last⟩ := Node.isElementary_conditional.mp elementary
      obtain ⟨kept, left⟩ := pruneBranches_part otherwise branches
      have chosen := kept_pruneBranches e otherwise branches
      have result : ∀ n ∈ (pruneBranches otherwise branches).2, n.isElementary = true := by
        intro n member
        rcases left n member with member | ⟨b, inside, rfl⟩
        · exact last n member
        · exact (each b inside).2
      -- What is left of a conditional is evaluated if all of it was.
      have fewer : ∀ c ∈ (pruneBranches otherwise branches).1.flatMap Branch.children ++
          (pruneBranches otherwise branches).2.toList, c ∈ branches.flatMap Branch.children ++ otherwise.toList := by
        intro c member
        rcases List.mem_append.mp member with member | member
        · obtain ⟨b, inside, member⟩ := List.mem_flatMap.mp member
          exact List.mem_append_left _ (List.mem_flatMap.mpr ⟨b, kept b inside, member⟩)
        · rcases left c (Option.mem_toList.mp member) with member | ⟨b, inside, rfl⟩
          · exact List.mem_append_right _ (Option.mem_toList.mpr member)
          · exact List.mem_append_left _ (List.mem_flatMap.mpr ⟨b, inside, by simp [Branch.children]⟩)
      rw [outcome_conditional]
      split
      · rename_i r pruned
        rw [pruned] at chosen
        exact ⟨result r (by rw [pruned]; rfl), fun v outcome => chosen v (e.demand_some.mp outcome).2⟩
      · rename_i pruned
        rw [pruned] at chosen
        exact ⟨Node.isElementary_constant, fun v outcome => chosen v (e.demand_some.mp outcome).2⟩
      · rename_i pruned
        rw [pruned] at chosen result fewer kept
        refine ⟨Node.isElementary_conditional.mpr ⟨fun b member => each b (kept b member), result⟩, ?_⟩
        rw [outcome_conditional]
        refine e.kept_demand (fun _ given => ?_) chosen
        rw [List.forall_mem_map] at given ⊢
        exact fun c member => given c (fewer c member)
    · exact ⟨elementary, .refl _⟩
  · exact ⟨elementary, .refl _⟩

/-! ### Calls -/

theorem kept_spliced (n : Node) :
    Kept (e.outcome? n) (firstGiven ((spliced .coalesce n).map e.outcome?)) := by
  unfold spliced
  split
  · split
    · rename_i inner arguments type same
      subst same
      rw [outcome_coalesce]
      exact fun v outcome => (e.demand_some.mp outcome).2
    · rw [List.map_cons, List.map_nil, firstGiven_singleton]
      exact .refl _
  · rw [List.map_cons, List.map_nil, firstGiven_singleton]
    exact .refl _

theorem kept_flattened (arguments : List Node) :
    Kept (firstGiven (arguments.map e.outcome?)) (firstGiven ((arguments.flatMap (spliced .coalesce)).map e.outcome?)) := by
  induction arguments with
  | nil => exact .refl _
  | cons n rest ih =>
    rw [List.flatMap_cons, List.map_append, firstGiven_append]
    refine (kept_spliced e n).bind fun v => ?_
    split
    · exact ih
    · exact .refl _

theorem flattenCall_allowed : e.Allows flattenCall := by
  intro n elementary
  unfold flattenCall
  split
  · rename_i routine arguments type
    cases routine with
    | coalesce =>
      have associative : Routine.coalesce.isAssociative = true := rfl
      rw [if_pos associative, Node.isElementary_coalesce, outcome_coalesce, outcome_coalesce]
      rw [Node.isElementary_coalesce] at elementary
      -- An argument taken apart is a call whose arguments were elementary, and were evaluated if they had to be.
      have apart {P : Node → Prop} {c : Node} (member : c ∈ arguments.flatMap (spliced .coalesce))
          (each : ∀ d ∈ arguments, P d) (inner : ∀ list type, P (.call .coalesce list type) → ∀ d ∈ list, P d) : P c := by
        obtain ⟨d, inside, member⟩ := List.mem_flatMap.mp member
        have whole := each d inside
        rcases spliced_mem member with rfl | ⟨_, _, rfl, listed⟩
        · exact whole
        · exact inner _ _ whole c listed
      refine ⟨fun c member => apart member elementary fun list type whole => Node.isElementary_coalesce.mp whole,
        e.kept_demand (fun eager given => ?_) (kept_flattened e arguments)⟩
      · rw [List.forall_mem_map] at given ⊢
        refine fun c member => apart (P := fun c => (e.outcome? c).isSome = true) member given fun list type whole => ?_
        rw [outcome_coalesce] at whole
        obtain ⟨v, outcome⟩ := Option.isSome_iff_exists.mp whole
        exact List.forall_mem_map.mp ((e.demand_some.mp outcome).1 eager)
    | _ => cases (Node.isElementary_iff.mp elementary).1
  · exact ⟨elementary, .refl _⟩

theorem unwrapCall_allowed : e.Allows unwrapCall := by
  intro n elementary
  unfold unwrapCall
  split
  · cases (Node.isElementary_iff.mp elementary).1
  · rename_i only type
    rw [Node.isElementary_coalesce] at elementary
    refine ⟨elementary only List.mem_cons_self, fun v outcome => ?_⟩
    rw [outcome_coalesce] at outcome
    exact firstGiven_singleton (e.outcome? only) ▸ (e.demand_some.mp outcome).2
  · rename_i routine inner argument innerType type _ _
    cases routine with
    | coalesce => exact ⟨elementary, .refl _⟩
    | _ => cases (Node.isElementary_iff.mp elementary).1
  · exact ⟨elementary, .refl _⟩

/-- The passes that go by literals and calls alone. -/
def literalDriven : List Pass := [connectives, conditionals, literals, flatCalls, bareCalls]

theorem literalDriven_allowed : ∀ pass ∈ literalDriven, e.Allows pass.transform := by
  have ofRule {rule : Node → Node} (allowed : e.Allows rule) : e.Allows (Node.mapUp rule) := allowed.mapUp
  simp only [literalDriven, List.forall_mem_cons]
  exact ⟨ofRule (simplifyConnective_allowed e), ofRule (simplifyConditional_allowed e), ofRule (foldLiteral_allowed e),
    ofRule (flattenCall_allowed e), ofRule (unwrapCall_allowed e), fun _ member => absurd member List.not_mem_nil⟩

/-- An expression that does not fail comes to the same after any passes that go by literals, in any order. -/
theorem literalDriven_outcome {passes : List Pass} (driven : ∀ pass ∈ passes, pass ∈ literalDriven) {n : Node}
    (elementary : n.isElementary = true) {v : Value} (outcome : e.outcome? n = some v) :
    e.outcome? (passes.foldl (fun n pass => pass.transform n) n) = some v := by
  induction passes generalizing n with
  | nil => exact outcome
  | cons pass rest ih =>
    obtain ⟨still, kept⟩ := literalDriven_allowed e pass (driven pass List.mem_cons_self) n elementary
    exact ih (fun other member => driven other (List.mem_cons_of_mem _ member)) still (kept v outcome)

/-- The branch that divides by zero is never reached, and the tree comes down to the column it is about. -/
theorem literalDriven_outcome_column :
    let e : Evaluator :=
      { column := fun _ => .int32 5, parameter := fun _ => .null, eager := fun kind => kind == .binary
        compare := fun _ _ _ => none, reckon := fun _ _ _ => none, negate := fun _ => none }
    let x : Node := .column ⟨"t", "x", .int32⟩
    let least : Node := .binary .gt x (.literal (.int32 1)) .boolean
    let quotient : Node := .binary .divide (.literal (.int32 1)) (.literal (.int32 0)) .int32
    let chosen : Node := .conditional
      [⟨.call .coalesce [.binary .and (.literal (.bool true)) (.unary .isNull (.literal .null) .boolean) .boolean] .boolean,
        .call .coalesce [.null .int32, .call .coalesce [x] .int32] .int32⟩, ⟨least, quotient⟩] (some quotient) .int32
    let passes := literalDriven ++ literalDriven
    (∀ pass ∈ passes, pass ∈ literalDriven) ∧ chosen.isElementary = true ∧ e.outcome? chosen = some (.int32 5) ∧
      e.outcome? (passes.foldl (fun n pass => pass.transform n) chosen) = some (.int32 5) := by
  intro e x least quotient chosen passes
  have driven : ∀ pass ∈ passes, pass ∈ literalDriven := fun pass member => (List.mem_append.mp member).elim id id
  have elementary : chosen.isElementary = true := by decide +kernel
  have outcome : e.outcome? chosen = some (.int32 5) := by decide +kernel
  exact ⟨driven, elementary, outcome, literalDriven_outcome e driven elementary outcome⟩

end Pass

end QueryTree
