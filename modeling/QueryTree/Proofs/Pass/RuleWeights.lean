import Mathlib.Algebra.BigOperators.Ring.List
import QueryTree.Proofs.Pass.Lightening

/-! What the passes do to the weight of an operator.

Most of what a pass makes of an operator is one of its operands, some of them, or a literal. Comparisons of entities and
memberships grow; they pair the parts of one operand with those of another, which a product of the two outweighs.
-/

set_option autoImplicit false

namespace QueryTree.Pass

open Node

variable {ω : String → Nat} {exact : Prop}

/-- Leaves a node as it is or makes it lighter. -/
def Lightens (ω : String → Nat) (rule : Node → Node) : Prop := ∀ n, rule n = n ∨ (rule n).weight ω < n.weight ω

/-! ### Calls -/

theorem spliced_lighter {routine : Routine} (associative : routine.isAssociative = true) (a : Node) :
    spliced routine a = [a] ∨ load ((spliced routine a).map (weight ω)) < 1 + a.weight ω := by
  have other : routine ≠ .isIn := by
    rintro rfl
    cases associative
  unfold spliced
  split
  · split
    · rename_i inner arguments type same
      rw [weight_call (same ▸ other)]
      exact .inr (by omega)
    · exact .inl rfl
  · exact .inl rfl

theorem flattenCall_lightens : Lightens ω flattenCall := by
  intro n
  unfold flattenCall
  split
  · rename_i routine arguments type
    split
    · rename_i associative
      have other : routine ≠ .isIn := by
        rintro rfl
        cases associative
      rw [weight_call other, weight_call other]
      exact (flatMap_lighter fun a _ => spliced_lighter associative a).imp (fun same => by rw [same])
        fun less => Nat.add_lt_add_left less 1
    · exact .inl rfl
  · exact .inl rfl

theorem unwrapCall_lightens : Lightens ω unwrapCall := by
  intro n
  unfold unwrapCall
  split
  · exact .inr (weight_child (by simp [Shape.children]))
  · exact .inr (weight_child (by simp [Shape.children]))
  · split
    · exact .inr (weight_child (by simp [Shape.children]))
    · exact .inl rfl
  · exact .inl rfl

/-! ### Connectives -/

theorem weight_bool (b : Bool) : (Node.literal (.bool b)).weight ω = 0 := weight_constant _ _

theorem simplifyConnective_lightens : Lightens ω simplifyConnective := by
  have absorbed {s : Shape Node} {other : Node} (absorbing b : Bool) (child : other ∈ s.children) :
      (absorb absorbing b other).weight ω < (Node.mk s).weight ω := by
    unfold absorb
    split
    · rw [weight_bool]
      exact Nat.zero_lt_of_lt (weight_child child)
    · exact weight_child child
  intro n
  unfold simplifyConnective
  split
  · split
    · exact .inr (absorbed _ _ (by simp [Shape.children]))
    · exact .inr (absorbed _ _ (by simp [Shape.children]))
    · exact .inl rfl
  · rw [weight_unary, weight_unary]
    exact .inr (by omega)
  · split
    · rw [weight_bool]
      exact .inr (weight_pos (by simp [Shape.kind]))
    · exact .inl rfl
  · exact .inl rfl

/-! ### Literals -/

theorem evaluateBinary_size {op : BinaryOp} {a b v : Value} (found : evaluateBinary? op a b = some v) : v.size = 0 := by
  unfold evaluateBinary? at found
  split at found
  · cases found
  · split at found
    · obtain ⟨x, -, found⟩ := Option.bind_eq_some_iff.mp found
      obtain ⟨y, -, found⟩ := Option.bind_eq_some_iff.mp found
      cases found
      rfl
    · split at found
      · obtain ⟨ordering, -, rfl⟩ := Option.map_eq_some_iff.mp found
        rfl
      · unfold reckon? at found
        split at found
        · obtain ⟨_, -, rfl⟩ := Option.map_eq_some_iff.mp found
          rfl
        · obtain ⟨_, -, rfl⟩ := Option.map_eq_some_iff.mp found
          rfl
        · obtain ⟨_, -, rfl⟩ := Option.map_eq_some_iff.mp found
          rfl
        · cases found

theorem evaluateUnary_size {op : UnaryOp} {a v : Value} (found : evaluateUnary? op a = some v) : v.size = 0 := by
  unfold evaluateUnary? at found
  split at found
  all_goals
    try split at found
    all_goals
      cases found
      try rfl

theorem evaluateRoutine_size {routine : Routine} {values : List Value} {v : Value}
    (found : routine.evaluate? values = some v) : v.size = 0 ∨ v ∈ values := by
  unfold Routine.evaluate? at found
  split at found
  · obtain ⟨texts, -, rfl⟩ := Option.map_eq_some_iff.mp found
    exact .inl rfl
  · obtain rfl := Option.some.inj found
    unfold Value.firstGiven
    cases given : values.find? fun v => !v.isNull with
    | none => exact .inl rfl
    | some v => exact .inr (List.mem_of_find?_eq_some given)
  all_goals
    try split at found
    all_goals
      cases found
      try exact .inl rfl

theorem foldLiteral_lightens : Lightens ω foldLiteral := by
  intro n
  unfold foldLiteral
  split
  · rename_i v found
    refine .inr ?_
    rw [weight_constant]
    unfold evaluate? at found
    split at found
    · obtain ⟨a, -, found⟩ := Option.bind_eq_some_iff.mp found
      obtain ⟨b, -, found⟩ := Option.bind_eq_some_iff.mp found
      rw [evaluateBinary_size found]
      exact weight_pos (by simp [Shape.kind])
    · obtain ⟨a, -, found⟩ := Option.bind_eq_some_iff.mp found
      rw [evaluateUnary_size found]
      exact weight_pos (by simp [Shape.kind])
    · rename_i routine arguments type
      obtain ⟨values, literals, found⟩ := Option.bind_eq_some_iff.mp found
      -- A list weighs more than one literal, but then it is an argument of the call.
      rcases evaluateRoutine_size found with none | listed
      · rw [none]
        exact weight_pos (by simp [Shape.kind])
      · obtain ⟨a, argument, literal⟩ := exists_of_mapM literals v listed
        obtain ⟨_, rfl⟩ := constant_some literal
        have child := weight_child (ω := ω) (s := .call routine arguments type) argument
        rwa [weight_constant] at child
    · cases found
  · exact .inl rfl

/-! ### Conditionals -/

def prunedParts (otherwise : Option Node) (branches : List (Branch Node)) : List Node :=
  (pruneBranches otherwise branches).1.flatMap Branch.children ++ (pruneBranches otherwise branches).2.toList

theorem pruneBranches_load (otherwise : Option Node) (branches : List (Branch Node)) :
    let before := load ((branches.flatMap Branch.children ++ otherwise.toList).map (weight ω))
    let after := load ((prunedParts otherwise branches).map (weight ω))
    after ≤ before ∧ (branches.any isDecided = true → after < before) := by
  induction branches with
  | nil => exact ⟨Nat.le_refl _, nofun⟩
  | cons b rest ih =>
    dsimp only at ih ⊢
    unfold prunedParts at ih ⊢
    unfold pruneBranches
    simp only [List.any_cons, List.flatMap_cons, Branch.children, List.map_append, load_append, List.map_cons,
      List.map_nil, load_cons, load_nil] at ih ⊢
    split
    · simp only [List.flatMap_nil, List.map_nil, load_nil, Option.toList_some, List.map_cons, load_cons]
      exact ⟨by omega, fun _ => by omega⟩
    · exact ⟨by omega, fun _ => by omega⟩
    · exact ⟨by omega, fun _ => by omega⟩
    · rename_i other given other'
      -- The branch stays, so a branch that goes has to be one of the others.
      have undecided : isDecided b = false := by
        unfold isDecided
        split
        · rename_i value known
          cases value <;> simp_all
        · contradiction
        · rfl
      rw [undecided, Bool.false_or]
      simp only [List.flatMap_cons, List.map_append, load_append, Branch.children, List.map_cons, List.map_nil,
        load_cons, load_nil]
      exact ⟨by omega, fun later => by have := ih.2 later; omega⟩

theorem simplifyConditional_lightens : Lightens ω simplifyConditional := by
  intro n
  unfold simplifyConditional
  split
  · rename_i branches otherwise type
    split
    · rename_i decided
      have fewer := (pruneBranches_load (ω := ω) otherwise branches).2 decided
      unfold prunedParts at fewer
      rw [weight_conditional]
      refine .inr ?_
      split
      · rename_i result pruned
        rw [pruned] at fewer
        simp only [List.flatMap_nil, List.nil_append, Option.toList_some, List.map_cons, List.map_nil, load_cons,
          load_nil] at fewer
        omega
      · exact Nat.add_pos_left Nat.one_pos _
      · rename_i pruned
        rw [pruned] at fewer
        rw [weight_conditional]
        exact Nat.add_lt_add_left fewer 1
    · exact .inl rfl
  · exact .inl rfl

/-! ### Entities -/

/-- What nodes weigh that are joined by a connective. -/
theorem joinAll_weight {op : BinaryOp} (logical : op.isLogical = true) (ns : List Node) :
    ∀ n ∈ joinAll op ns, n.weight ω + 3 = (ns.map fun m => m.weight ω + 3).sum := by
  intro n joined
  cases ns with
  | nil => cases joined
  | cons first rest =>
    cases joined
    induction rest generalizing first with
    | nil => simp
    | cons second rest ih =>
      have both : (ofBinary op first second).weight ω = 3 + first.weight ω + second.weight ω :=
        weight_connective logical first second _
      rw [List.foldl_cons, ih, List.map_cons, List.sum_cons, both]
      simp only [List.map_cons, List.sum_cons]
      omega

theorem joinAll_le {α : Type} {op : BinaryOp} (logical : op.isLogical = true) {l : List α} {f : α → Node}
    {bound : α → Nat} (each : ∀ a ∈ l, (f a).weight ω + 3 ≤ bound a) :
    ∀ n ∈ joinAll op (l.map f), n.weight ω + 3 ≤ (l.map bound).sum := by
  intro n joined
  rw [joinAll_weight logical _ n joined, List.map_map]
  exact List.sum_le_sum each

theorem mapM_sum_le {α β : Type} {f : α → Option β} {g : β → Nat} {bound : α → Nat} {l : List α} {results : List β}
    (mapped : l.mapM f = some results) (each : ∀ a ∈ l, ∀ b, f a = some b → g b ≤ bound a) :
    (results.map g).sum ≤ (l.map bound).sum := by
  rw [mapM_some_iff] at mapped
  induction l generalizing results with
  | nil =>
    obtain rfl := List.map_eq_nil_iff.mp mapped.symm
    exact Nat.le_refl _
  | cons a rest ih =>
    obtain ⟨b, others, rfl⟩ := List.exists_cons_of_ne_nil (l := results) (by rintro rfl; cases mapped)
    rw [List.map_cons, List.map_cons, List.cons.injEq] at mapped
    rw [List.map_cons, List.map_cons, List.sum_cons, List.sum_cons]
    exact Nat.add_le_add (each a List.mem_cons_self b mapped.1)
      (ih mapped.2 fun c member => each c (List.mem_cons_of_mem _ member))

theorem sum_scaled {α : Type} (w : α → Nat) (k : Nat) (l : List α) :
    (l.map fun a => 5 * ((1 + w a) * k)).sum = 5 * (load (l.map w) * k) := by
  rw [List.sum_map_mul_left, List.sum_map_mul_right, load, List.map_map]
  rfl

theorem comparison_le {a b k : Nat} (own : 1 + b ≤ k) : 5 * ((1 + a) * (1 + b)) + 3 ≤ 5 * ((1 + a) * (1 + k)) := by
  have less := Nat.mul_le_mul_left (1 + a) own
  rw [Nat.mul_add (1 + a) 1 k]
  omega

/-- Keys are paired with keys of the other entity. -/
theorem compareKeys_weight {op : BinaryOp} (comparison : op.isLogical = false) {left right : List (Binding Node)}
    {pairs : List (Node × Node)} (paired : pairKeys? left right = some pairs) :
    ∀ n ∈ compareKeys? op pairs, n.weight ω + 3 ≤
      5 * (load (left.map fun k => k.expr.weight ω) * (1 + load (right.map fun k => k.expr.weight ω))) := by
  intro n compared
  have joins : (if op = .eq then BinaryOp.and else .or).isLogical = true := by split <;> rfl
  rw [joinAll_weight joins _ n compared, List.map_map, ← sum_scaled]
  unfold pairKeys? at paired
  split at paired
  · cases paired
  · refine mapM_sum_le paired fun l _ p found => ?_
    obtain ⟨r, partner, rfl⟩ := Option.map_eq_some_iff.mp found
    have own : 1 + r.expr.weight ω ≤ load (right.map fun k => k.expr.weight ω) :=
      load_mem (List.mem_map_of_mem (List.mem_of_find?_eq_some partner))
    show (Node.binary op l.expr r.expr _).weight ω + 3 ≤ _
    rw [weight_comparison comparison]
    exact comparison_le own

theorem testKeys_weight (op : BinaryOp) (keys : List (Binding Node)) :
    ∀ n ∈ testKeys? op keys, n.weight ω + 3 ≤ 5 * load (keys.map fun k => k.expr.weight ω) := by
  intro n tested
  have scaled := sum_scaled (fun k : Binding Node => k.expr.weight ω) 1 keys
  rw [Nat.mul_one] at scaled
  rw [← scaled]
  have each (test : UnaryOp) : ∀ k ∈ keys, (ofUnary test k.expr).weight ω + 3 ≤ 5 * ((1 + k.expr.weight ω) * 1) := by
    intro k _
    show (Node.unary test k.expr _).weight ω + 3 ≤ _
    rw [weight_unary]
    omega
  unfold testKeys? at tested
  split at tested
  · exact joinAll_le rfl (each .isNull) n tested
  · exact joinAll_le rfl (each .isNotNull) n tested

theorem expandComparison_lightens : Lightens ω expandComparison := by
  intro n
  unfold expandComparison
  split
  · rename_i op left right type
    split
    · rename_i compares
      have comparison : op.isLogical = false := by
        cases op <;> first | rfl | cases compares
      cases found : compareEntities? op left right with
      | none => exact .inl rfl
      | some made =>
        refine .inr ?_
        rw [weight_comparison comparison]
        show made.weight ω < _
        unfold compareEntities? at found
        split at found
        · obtain ⟨pairs, paired, compared⟩ := Option.bind_eq_some_iff.mp found
          have weight := compareKeys_weight (ω := ω) comparison paired made compared
          rw [weight_object, weight_object]
          generalize load _ = l at weight ⊢
          generalize load _ = r at weight ⊢
          -- Pairs of keys weigh no more than the product by which two entities are compared.
          have whole : l * (1 + r) ≤ (1 + (1 + l)) * (1 + (1 + r)) := Nat.mul_le_mul (by omega) (by omega)
          omega
        · split at found
          · have weight := testKeys_weight (ω := ω) op _ made found
            rw [weight_object]
            generalize load _ = keys at weight ⊢
            have whole := Nat.le_mul_of_pos_right (1 + (1 + keys)) (Nat.add_pos_left Nat.one_pos (right.weight ω))
            omega
          · cases found
        · split at found
          · have weight := testKeys_weight (ω := ω) op _ made found
            rw [weight_object]
            generalize load _ = keys at weight ⊢
            have whole := Nat.le_mul_of_pos_left (1 + (1 + keys)) (Nat.add_pos_left Nat.one_pos (left.weight ω))
            omega
          · cases found
        · cases found
    · exact .inl rfl
  · exact .inl rfl

/-! ### Memberships -/

theorem literalLike_weight (n : Node) (value : Value) : (literalLike n value).weight ω = value.size := by
  unfold literalLike
  split <;> exact weight_constant _ _

theorem components_weight {operand : Node} {ns : List Node} (found : components? operand = some ns) :
    operand.weight ω = 1 + load (ns.map (weight ω)) := by
  unfold components? at found
  split at found
  · cases found
    exact weight_tuple _
  · cases found
    rw [weight_object, List.map_map]
    rfl
  · cases found

theorem equalsItem_weight {parts : List Node} {item : Value} :
    ∀ n ∈ equalsItem? parts item, n.weight ω + 3 ≤ 5 * (load (parts.map (weight ω)) * item.size) := by
  intro n equals
  unfold equalsItem? at equals
  split at equals
  · rename_i values
    split at equals
    · rename_i lengths
      rw [← List.map_uncurry_zip_eq_zipWith] at equals
      have bound : n.weight ω + 3 ≤
          ((parts.zip values).map fun p => 5 * ((1 + p.1.weight ω) * (1 + Value.sizes values))).sum := by
        refine joinAll_le rfl (fun p inside => ?_) n equals
        have value : 1 + p.2.size ≤ Value.sizes values := by
          rw [Value.sizes_eq]
          exact List.le_sum_of_mem (List.mem_map_of_mem (List.of_mem_zip inside).2)
        show (Node.binary .eq p.1 (literalLike p.1 p.2) _).weight ω + 3 ≤ _
        rw [weight_comparison rfl, literalLike_weight]
        exact comparison_le value
      have firsts : (parts.zip values).map (fun p => p.1.weight ω) = parts.map (weight ω) := by
        rw [← Function.comp_def, ← List.map_map, List.map_fst_zip (Nat.le_of_eq lengths.symm)]
      rwa [sum_scaled, firsts] at bound
    · cases equals
  · cases equals

theorem membership_weight {operand : Node} {items : List Value} :
    ∀ n ∈ membership? operand items,
      n.weight ω < 5 * ((1 + operand.weight ω) * (1 + (1 + (1 + Value.sizes items)))) := by
  intro n sought
  unfold membership? at sought
  split at sought
  · cases sought
    rw [weight_bool]
    positivity
  · split at sought
    · rename_i parts found
      obtain ⟨tests, mapped, joined⟩ := Option.bind_eq_some_iff.mp sought
      -- As many comparisons as there are parts in all items, and each weighs less than five times its part and value.
      have total : n.weight ω + 3 ≤ 5 * (load (parts.map (weight ω)) * Value.sizes items) := by
        rw [joinAll_weight rfl _ n joined, Value.sizes_eq, ← List.sum_map_mul_left, ← List.sum_map_mul_left]
        refine mapM_sum_le mapped fun item _ test equals => (equalsItem_weight test equals).trans ?_
        exact Nat.mul_le_mul_left 5 (Nat.mul_le_mul_left _ (Nat.le_add_left _ _))
      rw [components_weight found]
      generalize load _ = part at total ⊢
      have whole : part * Value.sizes items ≤ (1 + (1 + part)) * (1 + (1 + (1 + Value.sizes items))) :=
        Nat.mul_le_mul (by omega) (by omega)
      omega
    · cases sought
      have written : load ((items.map (literalLike operand)).map (weight ω)) = Value.sizes items := by
        rw [List.map_map, Function.comp_def, load, List.map_map, Value.sizes_eq]
        exact congrArg List.sum (List.map_congr_left fun v _ => congrArg (1 + ·) (literalLike_weight operand v))
      rw [weight_membership, written]
      have less : 1 + Value.sizes items < 1 + (1 + (1 + Value.sizes items)) := by omega
      exact Nat.mul_lt_mul_of_pos_left (Nat.mul_lt_mul_of_pos_left less (by omega)) (by decide)

theorem expandMembership_lightens : Lightens ω expandMembership := by
  intro n
  unfold expandMembership
  split
  · rename_i operand items listType type
    cases found : membership? operand items with
    | none => exact .inl rfl
    | some made =>
      have whole : (Node.call .isIn [operand, .constant (.list items) listType] type).weight ω =
          5 * ((1 + operand.weight ω) * (1 + (1 + (1 + Value.sizes items)))) := weight_membership _ _ _
      exact .inr (whole ▸ membership_weight made found)
  · exact .inl rfl

theorem rules_lighten : ∀ rule ∈ rules, Lightens ω rule := by
  simp only [rules, List.forall_mem_cons]
  exact ⟨flattenCall_lightens, simplifyConnective_lightens, expandComparison_lightens, foldLiteral_lightens,
    unwrapCall_lightens, simplifyConditional_lightens, expandMembership_lightens,
    fun _ member => absurd member List.not_mem_nil⟩

theorem rules_relieve : ∀ rule ∈ rules, ∀ n, TakesPlace (Relieves exact ω) n (rule n) := by
  rintro rule member ⟨s⟩
  refine relieves_iff.mpr fun before => ?_
  rcases rules_lighten (ω := ω) rule member (.mk s) with same | less
  · rw [same]
    exact .refl before
  · refine ⟨rules_keep bounded_parts rule member _ before, ?_, .inl less⟩
    -- Sources are left as they are, and what is no source weighs the same to whoever reads from it.
    cases ordinary : s.isOrdinary with
    | true =>
      have front : (Node.mk s).front ω = (Node.mk s).weight ω := by
        cases s <;> first | rfl | cases ordinary
      exact (front_le _).trans (front ▸ Nat.le_of_lt less)
    | false => rw [rules_still rule member s ordinary]

end QueryTree.Pass
