import Mathlib.Logic.Function.Iterate
import QueryTree.Proofs.Node.Pairing
import QueryTree.Proofs.Pass.ResultColumns

/-! Rounds, and how many of them a tree needs.

A pipeline stops after a round that changes nothing, or when its rounds are spent. Either way its result is that of
as many rounds as it may run, so a tree that has come to rest by then is left as it is the next time. No bound is
enough for all trees: a conditional that decides another one is decided a round later.
-/

set_option autoImplicit false

namespace QueryTree

/-! ### Rounds -/

theorem Node.untilStable_eq (step : Node → Node) (rounds : Nat) (n : Node) :
    n.untilStable step rounds = step^[rounds] n := by
  induction rounds generalizing n with
  | zero => rfl
  | succ rounds ih =>
    unfold untilStable
    dsimp only
    split
    · rename_i same
      exact (Function.iterate_fixed (eq_of_alike same) _).symm
    · rw [ih, Function.iterate_succ_apply]

namespace Pipeline

theorem optimize_eq (p : Pipeline) (n : Node) : p.optimize n = p.round^[max p.maxRounds 1] n :=
  Node.untilStable_eq _ _ n

theorem optimize_fixed (p : Pipeline) {n : Node} (fixed : p.round n = n) : p.optimize n = n := by
  rw [optimize_eq, Function.iterate_fixed fixed]

end Pipeline

/-! ### Conditionals that decide one another -/

namespace Node

def one : Node := .literal (.int32 1)

/-- `CASE WHEN condition THEN 1 ELSE 2 END`. -/
def choice (condition : Node) : Node := .conditional [⟨condition, one⟩] (some (.literal (.int32 2))) .int32

/-- Choices that each ask whether the one below it is one, from a value on. -/
def choices (n : Node) : Nat → Node
  | 0 => n
  | levels + 1 => choice (.equal (choices n levels) one)

def valueQuery (n : Node) : Node := .select { label := "s", columns := [⟨"v", n⟩] }

/-- A rule that has nothing to do with choices. -/
structure Spares (rule : Node → Node) : Prop where
  ofConstant : ∀ value type, rule (.constant value type) = .constant value type
  ofChoice : ∀ condition, rule (choice condition) = choice condition
  ofEqual : ∀ n, rule (.equal n one) = .equal n one
  ofQuery : ∀ n, rule (valueQuery n) = valueQuery n

variable {rule : Node → Node}

theorem mapUp_constant (rule : Node → Node) (value : Value) (type : DataType) :
    (Node.constant value type).mapUp rule = rule (.constant value type) := mapUp_mk rule _

/-- The layers above a condition, where the constants stay. -/
theorem mapUp_choice (constants : ∀ value type, rule (.constant value type) = .constant value type) (condition : Node) :
    (choice condition).mapUp rule = rule (choice (condition.mapUp rule)) := by
  have kept (value : Value) : (literal value).mapUp rule = literal value :=
    (mapUp_constant rule _ _).trans (constants _ _)
  refine (mapUp_mk rule _).trans ?_
  simp only [Shape.map, Branch.map, List.map_cons, List.map_nil, Option.map_some, one, kept, choice]

theorem mapUp_equal (constants : ∀ value type, rule (.constant value type) = .constant value type) (n : Node) :
    (equal n one).mapUp rule = rule (equal (n.mapUp rule) one) := by
  refine (mapUp_mk rule _).trans ?_
  simp only [Shape.map, one, literal, mapUp_constant, constants]
  rfl

theorem Spares.choices (spares : Spares rule) {n : Node} (still : n.mapUp rule = n) (levels : Nat) :
    (n.choices levels).mapUp rule = n.choices levels := by
  induction levels with
  | zero => exact still
  | succ levels ih =>
    unfold Node.choices
    rw [mapUp_choice spares.ofConstant, mapUp_equal spares.ofConstant, ih, spares.ofEqual, spares.ofChoice]

theorem mapUp_valueQuery (rule : Node → Node) (query : ∀ n, rule (valueQuery n) = valueQuery n) (n : Node) :
    (valueQuery n).mapUp rule = valueQuery (n.mapUp rule) := (mapUp_mk rule _).trans (query _)

theorem choices_queries {n : Node} (none : n.queries = []) (levels : Nat) : (n.choices levels).queries = [] := by
  have constant (value : Value) : (literal value).queries = [] := by rw [literal, queries_mk]; rfl
  have ofOne : one.queries = [] := constant _
  induction levels with
  | zero => exact none
  | succ levels ih =>
    have test : (equal (n.choices levels) one).queries = [] := by
      simp [equal, ofBinary, queries_mk, Shape.children, select?, ih, ofOne]
    simp [choices, choice, queries_mk, Shape.children, Branch.children, select?, test, ofOne, constant]

/-- Undecided choices, and ones of which the innermost is decided. -/
inductive IsChoices : Node → Prop where
  | undecided (levels : Nat) : IsChoices (one.choices levels)
  | decided (levels : Nat) : IsChoices ((choice (.literal (.bool true))).choices levels)

theorem Spares.mapUp (spares : Spares rule) {n : Node} (choices : IsChoices n) : n.mapUp rule = n := by
  have constant (value : Value) : (literal value).mapUp rule = literal value :=
    (mapUp_constant rule _ _).trans (spares.ofConstant _ _)
  cases choices with
  | undecided levels => exact spares.choices (constant _) levels
  | decided levels =>
    refine spares.choices ?_ levels
    rw [mapUp_choice spares.ofConstant, constant, spares.ofChoice]

theorem IsChoices.queries {n : Node} (choices : IsChoices n) : n.queries = [] := by
  cases choices with
  | undecided levels => exact choices_queries (by simp [one, literal, queries_mk, Shape.children, select?]) levels
  | decided levels =>
    refine choices_queries ?_ levels
    simp [choice, one, literal, queries_mk, Shape.children, Branch.children, select?]

end Node

namespace Pass

open Node

/-- A pass that has nothing to do with choices. -/
def Leaves (pass : Pass) : Prop := ∀ n, IsChoices n → pass.transform (valueQuery n) = valueQuery n

theorem leaves_ofSpares {pass : Pass} {rule : Node → Node} (made : pass.transform = Node.mapUp rule)
    (spares : Spares rule) : pass.Leaves := by
  intro n choices
  rw [made, mapUp_valueQuery _ spares.ofQuery, spares.mapUp choices]

theorem groupKeys_leaves : groupKeys.Leaves :=
  leaves_ofSpares rfl ⟨fun _ _ => rfl, fun _ => rfl, fun _ => rfl, fun _ => rfl⟩

theorem groupAggregates_leaves : groupAggregates.Leaves :=
  leaves_ofSpares rfl ⟨fun _ _ => rfl, fun _ => rfl, fun _ => rfl, fun _ => rfl⟩

theorem unusedColumns_leaves : unusedColumns.Leaves := by
  intro n choices
  have spares : Spares (pruneSources (valueQuery n).columns) :=
    ⟨fun _ _ => rfl, fun _ => rfl, fun _ => rfl, fun _ => rfl⟩
  have still : pruneUnused (valueQuery n) = valueQuery n := by
    rw [pruneUnused, mapUp_valueQuery _ spares.ofQuery, spares.mapUp choices]
  exact (untilStable_eq _ _ _).trans (Function.iterate_fixed still _)

theorem equalColumns_leaves : equalColumns.Leaves := by
  intro n choices
  have spares : Spares (dropColumns []) := ⟨fun _ _ => rfl, fun _ => rfl, fun _ => rfl, fun _ => rfl⟩
  have alone : (valueQuery n).queries = [{ label := "s", columns := [⟨"v", n⟩] }] := by
    simp [valueQuery, queries_mk, Shape.children, Select.children, select?, choices.queries]
  have none : Dropped.find (valueQuery n) = [] := by
    unfold Dropped.find Dropped.sources
    rw [← Node.queries, alone]
    rfl
  have made : equalColumns.transform = mergeEqual := rfl
  rw [made, mergeEqual]
  dsimp only
  rw [none, mapUp_valueQuery _ spares.ofQuery, spares.mapUp choices]
  exact Mapping.follow_nil _ _

theorem sources_leaves : sources.Leaves := by
  intro n choices
  have flattened : flatten (valueQuery n) = (valueQuery n, []) := by
    refine (flatten_mk _).trans ?_
    simp [Shape.map, Select.map, Binding.map, Shape.children, Select.children, flatten_still choices.queries]
    exact ⟨rfl, rfl⟩
  have made : sources.transform = mergeSources := rfl
  rw [made, mergeSources, flattened]
  exact Mapping.follow_nil _ _

theorem flatCalls_leaves : flatCalls.Leaves :=
  leaves_ofSpares rfl ⟨fun _ _ => rfl, fun _ => rfl, fun _ => rfl, fun _ => rfl⟩

theorem connectives_leaves : connectives.Leaves :=
  leaves_ofSpares rfl ⟨fun _ _ => rfl, fun _ => rfl, fun _ => rfl, fun _ => rfl⟩

theorem entities_leaves : entities.Leaves := by
  refine leaves_ofSpares rfl ⟨fun _ _ => rfl, fun _ => rfl, fun n => ?_, fun _ => rfl⟩
  obtain ⟨s⟩ := n
  cases s <;> rfl

theorem bareCalls_leaves : bareCalls.Leaves :=
  leaves_ofSpares rfl ⟨fun _ _ => rfl, fun _ => rfl, fun _ => rfl, fun _ => rfl⟩

theorem membership_leaves : membership.Leaves :=
  leaves_ofSpares rfl ⟨fun _ _ => rfl, fun _ => rfl, fun _ => rfl, fun _ => rfl⟩

theorem literals_choices (levels : Nat) :
    (one.choices (levels + 1)).mapUp foldLiteral = (choice (.literal (.bool true))).choices levels := by
  induction levels with
  | zero => rfl
  | succ levels ih =>
    unfold choices
    rw [mapUp_choice fun _ _ => rfl, mapUp_equal fun _ _ => rfl, ih]
    -- A comparison with a choice is no literal yet, whether the choice is the innermost one or not.
    cases levels <;> rfl

theorem conditionals_choices (levels : Nat) :
    ((choice (.literal (.bool true))).choices levels).mapUp simplifyConditional = one.choices levels := by
  induction levels with
  | zero => rfl
  | succ levels ih =>
    unfold choices
    rw [mapUp_choice fun _ _ => rfl, mapUp_equal fun _ _ => rfl, ih]
    rfl

end Pass

namespace Pipeline

open Node Pass

theorem round_valueQuery {before folded after : Node} (undecided : IsChoices before) (decided : IsChoices folded)
    (rest : IsChoices after) (literal : before.mapUp foldLiteral = folded)
    (conditional : folded.mapUp simplifyConditional = after) :
    standard.round (valueQuery before) = valueQuery after := by
  have fold : literals.transform (valueQuery before) = valueQuery folded := by
    rw [← literal]
    exact mapUp_valueQuery foldLiteral (fun _ => rfl) before
  have prune : conditionals.transform (valueQuery folded) = valueQuery after := by
    rw [← conditional]
    exact mapUp_valueQuery simplifyConditional (fun _ => rfl) folded
  unfold round
  simp only [standard, all, List.foldl_cons, List.foldl_nil, groupKeys_leaves _ undecided,
    groupAggregates_leaves _ undecided, unusedColumns_leaves _ undecided, equalColumns_leaves _ undecided,
    sources_leaves _ undecided, flatCalls_leaves _ undecided, connectives_leaves _ undecided,
    entities_leaves _ undecided, fold, bareCalls_leaves _ decided, prune, membership_leaves _ rest]

/-- A round decides the innermost choice and puts one in its place. -/
theorem round_choices (levels : Nat) :
    standard.round (valueQuery (one.choices (levels + 1))) = valueQuery (one.choices levels) :=
  round_valueQuery (.undecided _) (.decided levels) (.undecided _) (literals_choices levels)
    (conditionals_choices levels)

theorem round_one : standard.round (valueQuery one) = valueQuery one :=
  round_valueQuery (.undecided 0) (.undecided 0) (.undecided 0) rfl rfl

theorem rounds_choices (rounds levels : Nat) :
    standard.round^[rounds] (valueQuery (one.choices (levels + rounds))) = valueQuery (one.choices levels) := by
  induction rounds with
  | zero => rfl
  | succ rounds ih => rw [Function.iterate_succ_apply, ← Nat.add_assoc, round_choices, ih]

/-- With any bound, choices of one level more than there are rounds come to rest the second time only. -/
theorem optimize_choices (bound : Nat) :
    let p : Pipeline := { standard with maxRounds := bound }
    let n := valueQuery (one.choices (max bound 1 + 1))
    p.optimize n = valueQuery (one.choices 1) ∧ p.optimize (p.optimize n) = valueQuery one := by
  intro p n
  -- All rounds are spent on the choices above the last one, which the first round of the next run decides.
  have first : p.optimize n = valueQuery (one.choices 1) := by
    have enough := rounds_choices (max bound 1) 1
    rw [Nat.add_comm] at enough
    exact (p.optimize_eq n).trans enough
  refine ⟨first, ?_⟩
  obtain ⟨rounds, more⟩ : ∃ rounds, max p.maxRounds 1 = rounds + 1 := ⟨max p.maxRounds 1 - 1, by omega⟩
  rw [first, optimize_eq, more, Function.iterate_succ_apply]
  exact (congrArg standard.round^[rounds] (round_choices 0)).trans (Function.iterate_fixed round_one rounds)

/-- Choices of nine levels refer to nothing and declare one name, and come to rest in the ninth round. -/
theorem nested_choices_unsettled :
    let n := valueQuery (one.choices 9)
    n.labels.Nodup ∧ (∀ q ∈ n.queries, (q.columns.map (·.name)).Nodup) ∧
      (∀ m ∈ n.subtrees, m.column? = none ∧ m.kind ≠ .groupAggregate) ∧
      standard.optimize (standard.optimize n) ≠ standard.optimize n := by
  intro n
  refine ⟨by decide +kernel, by decide +kernel, by decide +kernel, ?_⟩
  obtain ⟨first, second⟩ := optimize_choices 8
  intro same
  have settled : valueQuery one = valueQuery (one.choices 1) := second.symm.trans (same.trans first)
  simp [valueQuery, choices, choice, one, literal] at settled

end Pipeline

end QueryTree
