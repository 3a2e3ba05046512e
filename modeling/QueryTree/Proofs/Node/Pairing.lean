import QueryTree.Node.Alike
import QueryTree.Node.Fold

/-! Alike layers, taken apart.

Two layers that are alike differ in their children only, unless they are literals or placeholders. So they are
one layer of pairs of children, and what holds of alike trees is shown by induction on the first of them.
-/

set_option autoImplicit false

namespace QueryTree

/-- What a comparison of two layers like this passes over in their children. -/
def Leniency.under {α : Type} (f : Leniency) : Shape α → Leniency
  | .constraint .. | .createIndex _ | .setCommand .. => f.inline
  | _ => f

namespace Node

variable {f : Leniency}

theorem pairs_of_alikeOption {o o' : Option Node} (same : alikeOption f o o' = true) :
    ∃ p : Option (Node × Node), p.map Prod.fst = o ∧ p.map Prod.snd = o' ∧
      ∀ c ∈ p.toList, alike f c.1 c.2 = true := by
  cases o with
  | none =>
    cases o' with
    | none => exact ⟨none, rfl, rfl, by simp⟩
    | some b => simp [alikeOption] at same
  | some a =>
    cases o' with
    | none => simp [alikeOption] at same
    | some b => exact ⟨some (a, b), rfl, rfl, by simpa [alikeOption] using same⟩

theorem pairs_of_alikeList {as : List Node} : ∀ {bs : List Node}, alikeList f as bs = true →
    ∃ ps : List (Node × Node), ps.map Prod.fst = as ∧ ps.map Prod.snd = bs ∧
      ∀ c ∈ ps, alike f c.1 c.2 = true := by
  induction as with
  | nil =>
    intro bs same
    cases bs with
    | nil => exact ⟨[], rfl, rfl, by simp⟩
    | cons b bs => simp [alikeList] at same
  | cons a as ih =>
    intro bs same
    cases bs with
    | nil => simp [alikeList] at same
    | cons b bs =>
      simp only [alikeList, Bool.and_eq_true] at same
      obtain ⟨here, there⟩ := same
      obtain ⟨ps, rfl, rfl, each⟩ := ih there
      exact ⟨(a, b) :: ps, rfl, rfl, List.forall_mem_cons.mpr ⟨here, each⟩⟩

theorem pairs_of_alikeBindings {as : List (Binding Node)} : ∀ {bs : List (Binding Node)},
    alikeBindings f as bs = true → ∃ ps : List (Binding (Node × Node)),
      ps.map (·.map Prod.fst) = as ∧ ps.map (·.map Prod.snd) = bs ∧
        ∀ c ∈ ps.map (·.expr), alike f c.1 c.2 = true := by
  induction as with
  | nil =>
    intro bs same
    cases bs with
    | nil => exact ⟨[], rfl, rfl, by simp⟩
    | cons b bs => simp [alikeBindings] at same
  | cons a as ih =>
    intro bs same
    cases bs with
    | nil => simp [alikeBindings] at same
    | cons b bs =>
      obtain ⟨name, expr⟩ := a
      obtain ⟨name', expr'⟩ := b
      simp only [alikeBindings, Bool.and_eq_true, beq_iff_eq] at same
      obtain ⟨⟨rfl, here⟩, there⟩ := same
      obtain ⟨ps, rfl, rfl, each⟩ := ih there
      exact ⟨⟨name, (expr, expr')⟩ :: ps, rfl, rfl, List.forall_mem_cons.mpr ⟨here, each⟩⟩

theorem pairs_of_alikeOrder {as : List (OrderItem Node)} : ∀ {bs : List (OrderItem Node)},
    alikeOrder f as bs = true → ∃ ps : List (OrderItem (Node × Node)),
      ps.map (·.map Prod.fst) = as ∧ ps.map (·.map Prod.snd) = bs ∧
        ∀ c ∈ ps.map (·.expr), alike f c.1 c.2 = true := by
  induction as with
  | nil =>
    intro bs same
    cases bs with
    | nil => exact ⟨[], rfl, rfl, by simp⟩
    | cons b bs => simp [alikeOrder] at same
  | cons a as ih =>
    intro bs same
    cases bs with
    | nil => simp [alikeOrder] at same
    | cons b bs =>
      obtain ⟨expr, direction⟩ := a
      obtain ⟨expr', direction'⟩ := b
      simp only [alikeOrder, Bool.and_eq_true, beq_iff_eq] at same
      obtain ⟨⟨rfl, here⟩, there⟩ := same
      obtain ⟨ps, rfl, rfl, each⟩ := ih there
      exact ⟨⟨(expr, expr'), direction⟩ :: ps, rfl, rfl, List.forall_mem_cons.mpr ⟨here, each⟩⟩

theorem pairs_of_alikeBranches {as : List (Branch Node)} : ∀ {bs : List (Branch Node)},
    alikeBranches f as bs = true → ∃ ps : List (Branch (Node × Node)),
      ps.map (·.map Prod.fst) = as ∧ ps.map (·.map Prod.snd) = bs ∧
        ∀ c ∈ ps.flatMap Branch.children, alike f c.1 c.2 = true := by
  induction as with
  | nil =>
    intro bs same
    cases bs with
    | nil => exact ⟨[], rfl, rfl, by simp⟩
    | cons b bs => simp [alikeBranches] at same
  | cons a as ih =>
    intro bs same
    cases bs with
    | nil => simp [alikeBranches] at same
    | cons b bs =>
      obtain ⟨condition, result⟩ := a
      obtain ⟨condition', result'⟩ := b
      simp only [alikeBranches, Bool.and_eq_true] at same
      obtain ⟨⟨tested, given⟩, there⟩ := same
      obtain ⟨ps, rfl, rfl, each⟩ := ih there
      refine ⟨⟨(condition, condition'), (result, result')⟩ :: ps, rfl, rfl, ?_⟩
      simp only [List.flatMap_cons, Branch.children, List.forall_mem_append, List.forall_mem_cons]
      exact ⟨⟨tested, given, by simp⟩, each⟩

theorem pairs_of_alikeConstraint {kind kind' : ConstraintKind Node} (same : alikeConstraint f kind kind' = true) :
    ∃ p : ConstraintKind (Node × Node), p.map Prod.fst = kind ∧ p.map Prod.snd = kind' ∧
      ∀ c ∈ p.children, alike f c.1 c.2 = true := by
  unfold alikeConstraint at same
  split at same
  next =>
    simp only [Bool.and_eq_true, beq_iff_eq] at same
    obtain ⟨rfl, rfl⟩ := same
    exact ⟨.primaryKey _ _, rfl, rfl, by simp [ConstraintKind.children]⟩
  next =>
    obtain rfl := beq_iff_eq.mp same
    exact ⟨.unique _, rfl, rfl, by simp [ConstraintKind.children]⟩
  next =>
    obtain rfl := beq_iff_eq.mp same
    exact ⟨.foreignKey _, rfl, rfl, by simp [ConstraintKind.children]⟩
  next => exact ⟨.notNull, rfl, rfl, by simp [ConstraintKind.children]⟩
  next => exact ⟨.autoIncrement, rfl, rfl, by simp [ConstraintKind.children]⟩
  next value value' => exact ⟨.default (value, value'), rfl, rfl, by simpa [ConstraintKind.children] using same⟩
  next => exact absurd same (by simp)

/-- One layer of pairs, of children that are alike. -/
structure Paired (f : Leniency) (z : Shape (Node × Node)) : Prop where
  each : ∀ c ∈ z.children, alike (f.under z) c.1 c.2 = true
  notConstant : z.kind ≠ .constant
  notPlaceholder : z.kind ≠ .placeholder

/-- How two layers can be alike. -/
inductive AlikeLayers (f : Leniency) : Node → Node → Prop where
  | constants {value value' : Value} (type : DataType)
      (same : if f.constants then value.isNull = value'.isNull else value = value') :
      AlikeLayers f (.constant value type) (.constant value' type)
  | placeholders {index index' : Nat} (type : DataType) (same : f.placeholders = true ∨ index = index') :
      AlikeLayers f (.placeholder index type) (.placeholder index' type)
  | paired (z : Shape (Node × Node)) (both : Paired f z) :
      AlikeLayers f (.mk (z.map Prod.fst)) (.mk (z.map Prod.snd))

theorem AlikeLayers.ofChildren {f : Leniency} (z : Shape (Node × Node))
    (each : ∀ c ∈ z.children, alike (f.under z) c.1 c.2 = true)
    (other : (z.kind != .constant && z.kind != .placeholder) = true) :
    AlikeLayers f (.mk (z.map Prod.fst)) (.mk (z.map Prod.snd)) := by
  obtain ⟨notConstant, notPlaceholder⟩ := Bool.and_eq_true_iff.mp other
  exact .paired z ⟨each, by simpa using notConstant, by simpa using notPlaceholder⟩

theorem alike_layers {a b : Node} (same : alike f a b = true) : AlikeLayers f a b := by
  unfold alike at same
  split at same
  -- One case for every kind, for layers of different kinds are never alike.
  all_goals try simp only [Bool.and_eq_true, beq_iff_eq] at same
  next name label type name' label' type' =>
    obtain ⟨⟨rfl, rfl⟩, rfl⟩ := same
    exact .ofChildren (.table name label type) (by simp [Shape.children]) rfl
  next label columns source filter groupBy orderBy distinct skip take forUpdate type q =>
    obtain ⟨label', columns', source', filter', groupBy', orderBy', distinct', skip', take', forUpdate', type'⟩ := q
    obtain ⟨⟨⟨⟨⟨⟨⟨⟨⟨⟨rfl, rfl⟩, rfl⟩, rfl⟩, likeColumns⟩, likeSource⟩, likeFilter⟩, likeOrderBy⟩, likeGroupBy⟩,
      likeSkip⟩, likeTake⟩ := same
    obtain ⟨columns, rfl, rfl, ofColumns⟩ := pairs_of_alikeBindings likeColumns
    obtain ⟨source, rfl, rfl, ofSource⟩ := pairs_of_alikeOption likeSource
    obtain ⟨filter, rfl, rfl, ofFilter⟩ := pairs_of_alikeOption likeFilter
    obtain ⟨orderBy, rfl, rfl, ofOrder⟩ := pairs_of_alikeOrder likeOrderBy
    obtain ⟨groupBy, rfl, rfl, ofGroups⟩ := pairs_of_alikeList likeGroupBy
    obtain ⟨skip, rfl, rfl, ofSkip⟩ := pairs_of_alikeOption likeSkip
    obtain ⟨take, rfl, rfl, ofTake⟩ := pairs_of_alikeOption likeTake
    refine .ofChildren (.select ⟨label, columns, source, filter, groupBy, orderBy, distinct, skip, take, forUpdate, type⟩)
      ?_ rfl
    simp only [Shape.children, Select.children, List.forall_mem_append]
    exact ⟨⟨⟨⟨⟨⟨ofColumns, ofSource⟩, ofFilter⟩, ofGroups⟩, ofOrder⟩, ofSkip⟩, ofTake⟩
  next kind left right condition kind' left' right' condition' =>
    obtain ⟨⟨⟨rfl, ofLeft⟩, ofRight⟩, likeCondition⟩ := same
    obtain ⟨condition, rfl, rfl, ofCondition⟩ := pairs_of_alikeOption likeCondition
    refine .ofChildren (.join kind (left, left') (right, right') condition) ?_ rfl
    simp only [Shape.children, List.forall_mem_cons]
    exact ⟨ofLeft, ofRight, ofCondition⟩
  next c c' =>
    obtain rfl := same
    exact .ofChildren (.column c) (by simp [Shape.children]) rfl
  next kind argument distinct type kind' argument' distinct' type' =>
    obtain ⟨⟨⟨rfl, rfl⟩, rfl⟩, likeArgument⟩ := same
    obtain ⟨argument, rfl, rfl, each⟩ := pairs_of_alikeOption likeArgument
    exact .ofChildren (.aggregate kind argument distinct type) each rfl
  next label inGroup asQuery type label' inGroup' asQuery' type' =>
    obtain ⟨⟨⟨rfl, rfl⟩, ofGroup⟩, ofQuery⟩ := same
    refine .ofChildren (.groupAggregate label (inGroup, inGroup') (asQuery, asQuery') type) ?_ rfl
    simp only [Shape.children, List.forall_mem_cons]
    exact ⟨ofGroup, ofQuery, by simp⟩
  next kind operand query type kind' operand' query' type' =>
    obtain ⟨⟨⟨rfl, rfl⟩, likeOperand⟩, ofQuery⟩ := same
    obtain ⟨operand, rfl, rfl, ofOperand⟩ := pairs_of_alikeOption likeOperand
    refine .ofChildren (.subquery kind operand (query, query') type) ?_ rfl
    simp only [Shape.children, List.forall_mem_append, List.forall_mem_singleton]
    exact ⟨ofOperand, ofQuery⟩
  next routine arguments type routine' arguments' type' =>
    obtain ⟨⟨rfl, rfl⟩, likeArguments⟩ := same
    obtain ⟨arguments, rfl, rfl, each⟩ := pairs_of_alikeList likeArguments
    exact .ofChildren (.call routine arguments type) each rfl
  next value type value' type' =>
    obtain ⟨rfl, values⟩ := same
    refine .constants type ?_
    split at values
    next lenient => rw [if_pos lenient]; exact beq_iff_eq.mp values
    next strict => rw [if_neg strict]; exact beq_iff_eq.mp values
  next index type index' type' =>
    obtain ⟨rfl, indices⟩ := same
    refine .placeholders type ?_
    simpa using indices
  next name type name' type' =>
    obtain ⟨rfl, rfl⟩ := same
    exact .ofChildren (.parameter name type) (by simp [Shape.children]) rfl
  next source orderBy source' orderBy' =>
    obtain ⟨ofSource, likeOrderBy⟩ := same
    obtain ⟨orderBy, rfl, rfl, ofOrder⟩ := pairs_of_alikeOrder likeOrderBy
    refine .ofChildren (.window (source, source') orderBy) ?_ rfl
    simp only [Shape.children, List.forall_mem_cons]
    exact ⟨ofSource, ofOrder⟩
  next op left right type op' left' right' type' =>
    obtain ⟨⟨⟨rfl, rfl⟩, ofLeft⟩, ofRight⟩ := same
    refine .ofChildren (.binary op (left, left') (right, right') type) ?_ rfl
    simp only [Shape.children, List.forall_mem_cons]
    exact ⟨ofLeft, ofRight, by simp⟩
  next op operand type op' operand' type' =>
    obtain ⟨⟨rfl, rfl⟩, ofOperand⟩ := same
    refine .ofChildren (.unary op (operand, operand') type) ?_ rfl
    exact List.forall_mem_singleton.mpr ofOperand
  next branches otherwise type branches' otherwise' type' =>
    obtain ⟨⟨rfl, likeBranches⟩, likeOtherwise⟩ := same
    obtain ⟨branches, rfl, rfl, ofBranches⟩ := pairs_of_alikeBranches likeBranches
    obtain ⟨otherwise, rfl, rfl, ofOtherwise⟩ := pairs_of_alikeOption likeOtherwise
    refine .ofChildren (.conditional branches otherwise type) ?_ rfl
    simp only [Shape.children, List.forall_mem_append]
    exact ⟨ofBranches, ofOtherwise⟩
  next elements elements' =>
    obtain ⟨elements, rfl, rfl, each⟩ := pairs_of_alikeList same
    exact .ofChildren (.tuple elements) each rfl
  next entity keys entity' keys' =>
    obtain ⟨rfl, likeKeys⟩ := same
    obtain ⟨keys, rfl, rfl, each⟩ := pairs_of_alikeBindings likeKeys
    exact .ofChildren (.object entity keys) each rfl
  next owner columns values returning identityInsert i =>
    obtain ⟨owner', columns', values', returning', identityInsert'⟩ := i
    obtain ⟨⟨⟨⟨rfl, rfl⟩, rfl⟩, rfl⟩, likeValues⟩ := same
    obtain ⟨values, rfl, rfl, each⟩ := pairs_of_alikeList likeValues
    exact .ofChildren (.insert ⟨owner, columns, values, returning, identityInsert⟩) each rfl
  next owner assignments filter identityInsert u =>
    obtain ⟨owner', assignments', filter', identityInsert'⟩ := u
    obtain ⟨⟨⟨rfl, rfl⟩, likeAssignments⟩, likeFilter⟩ := same
    obtain ⟨assignments, rfl, rfl, ofAssignments⟩ := pairs_of_alikeBindings likeAssignments
    obtain ⟨filter, rfl, rfl, ofFilter⟩ := pairs_of_alikeOption likeFilter
    refine .ofChildren (.update ⟨owner, assignments, filter, identityInsert⟩) ?_ rfl
    simp only [Shape.children, Update.children, List.forall_mem_append]
    exact ⟨ofAssignments, ofFilter⟩
  next owner label filter owner' label' filter' =>
    obtain ⟨⟨rfl, rfl⟩, likeFilter⟩ := same
    obtain ⟨filter, rfl, rfl, each⟩ := pairs_of_alikeOption likeFilter
    exact .ofChildren (.delete owner label filter) each rfl
  next owner ifNotExists columns constraints t =>
    obtain ⟨owner', ifNotExists', columns', constraints'⟩ := t
    obtain ⟨⟨⟨rfl, rfl⟩, likeColumns⟩, likeConstraints⟩ := same
    obtain ⟨columns, rfl, rfl, ofColumns⟩ := pairs_of_alikeList likeColumns
    obtain ⟨constraints, rfl, rfl, ofConstraints⟩ := pairs_of_alikeList likeConstraints
    refine .ofChildren (.createTable ⟨owner, ifNotExists, columns, constraints⟩) ?_ rfl
    simp only [Shape.children, List.forall_mem_append]
    exact ⟨ofColumns, ofConstraints⟩
  next owner actions owner' actions' =>
    obtain ⟨rfl, likeActions⟩ := same
    obtain ⟨actions, rfl, rfl, each⟩ := pairs_of_alikeList likeActions
    exact .ofChildren (.alterTable owner actions) each rfl
  next name type constraints name' type' constraints' =>
    obtain ⟨⟨rfl, rfl⟩, likeConstraints⟩ := same
    obtain ⟨constraints, rfl, rfl, each⟩ := pairs_of_alikeList likeConstraints
    exact .ofChildren (.columnDefinition name type constraints) each rfl
  next name kind name' kind' =>
    obtain ⟨rfl, likeKind⟩ := same
    obtain ⟨kind, rfl, rfl, each⟩ := pairs_of_alikeConstraint likeKind
    exact .ofChildren (.constraint name kind) each rfl
  next change target change' target' =>
    obtain ⟨rfl, ofTarget⟩ := same
    refine .ofChildren (.constraintAction change (target, target')) ?_ rfl
    exact List.forall_mem_singleton.mpr ofTarget
  next name owner columns unique clustered ifNotExists filter i =>
    obtain ⟨name', owner', columns', unique', clustered', ifNotExists', filter'⟩ := i
    obtain ⟨⟨⟨⟨⟨⟨rfl, rfl⟩, rfl⟩, rfl⟩, rfl⟩, rfl⟩, likeFilter⟩ := same
    obtain ⟨filter, rfl, rfl, each⟩ := pairs_of_alikeOption likeFilter
    exact .ofChildren (.createIndex ⟨name, owner, columns, unique, clustered, ifNotExists, filter⟩) each rfl
  next name labels name' labels' =>
    obtain ⟨rfl, rfl⟩ := same
    exact .ofChildren (.enumDefinition name labels) (by simp [Shape.children]) rfl
  next name arguments name' arguments' =>
    obtain ⟨rfl, likeArguments⟩ := same
    obtain ⟨arguments, rfl, rfl, each⟩ := pairs_of_alikeList likeArguments
    exact .ofChildren (.setCommand name arguments) each rfl
  next list list' =>
    obtain ⟨list, rfl, rfl, each⟩ := pairs_of_alikeList same
    exact .ofChildren (.statements list) each rfl
  next => exact absurd same (by simp)

/-- Trees that are alike with nothing passed over are the same. -/
theorem eq_of_alike {a b : Node} (same : alike {} a b = true) : a = b := by
  induction a using Node.inductNode generalizing b with
  | step s ih =>
    generalize whole : Node.mk s = a at same
    cases alike_layers same with
    | constants type values =>
      obtain rfl : _ = _ := values
      rfl
    | placeholders type indices =>
      rcases indices with lenient | rfl
      · exact absurd lenient (by simp)
      · rfl
    | paired z both =>
      obtain rfl := Node.mk.inj whole
      have under : Leniency.under {} z = {} := by cases z <;> rfl
      rw [Shape.map_congr fun c member => ?_]
      refine ih c.1 ?_ (under ▸ both.each c member)
      rw [Shape.children_map]
      exact List.mem_map_of_mem member

end Node

end QueryTree
