import Mathlib.Data.List.Basic
import QueryTree.Pass.Standard
import QueryTree.Proofs.Node.Parts

/-! Passes that apply one rule to every node.

A rule makes a node anew of what was in it, and leaves alone whatever declares a label or refers to one, but for the
clauses of a select. So what holds of a tree part by part holds of the tree that the pass makes.
-/

set_option autoImplicit false

namespace QueryTree

/-- `rule` rewrites one layer; `onSelect` is what it does to a select. -/
structure IsRule (rule : Node → Node) (onSelect : Select Node → Select Node) : Prop where
  still : ∀ s : Shape Node, s.isOrdinary = false → s.kind ≠ .select → rule (.mk s) = .mk s
  select : ∀ q, rule (.select q) = .select (onSelect q)
  label : ∀ q, (onSelect q).label = q.label
  columns : ∀ q, (onSelect q).columns = q.columns
  source : ∀ q, (onSelect q).source = q.source
  clauses : ∀ {P}, PartByPart P → ∀ q, (∀ c ∈ q.clauses, P c) → ∀ c ∈ (onSelect q).clauses, P c
  ordinary : ∀ {P}, PartByPart P → ∀ s : Shape Node, s.isOrdinary = true → P (.mk s) → P (rule (.mk s))

theorem IsRule.ofOrdinary {rule : Node → Node} (still : ∀ s : Shape Node, s.isOrdinary = false → rule (.mk s) = .mk s)
    (ordinary : ∀ {P}, PartByPart P → ∀ n, P n → P (rule n)) : IsRule rule id where
  still := fun s labelled _ => still s labelled
  select := fun _ => still _ rfl
  label := fun _ => rfl
  columns := fun _ => rfl
  source := fun _ => rfl
  clauses := fun _ _ each => each
  ordinary := fun parts _ _ whole => ordinary parts _ whole

namespace Pass

variable {P : Node → Prop}

theorem keyParts_mk (s : Shape Node) : keyParts (.mk s) =
    match s with
    | .tuple elements => elements.flatMap keyParts
    | .object _ keys => keys.flatMap fun k => keyParts k.expr
    | s => [.mk s] := by
  have alone (s : Shape Node) : [Node.mk ((s.map fun c => (c, keyParts c)).map Prod.fst)] = [Node.mk s] := by
    rw [Shape.map_map, Shape.map_id]
  refine (Node.para_mk _ s).trans ?_
  cases s with
  | tuple elements => exact List.flatMap_map ..
  | object entity keys => exact List.flatMap_map ..
  | _ => exact alone _

theorem keyParts_flatMap {β : Type} {f : Node → List β} (tuples : ∀ elements, f (.tuple elements) = elements.flatMap f)
    (objects : ∀ entity keys, f (.object entity keys) = keys.flatMap fun k => f k.expr) (n : Node) :
    (keyParts n).flatMap f = f n := by
  induction n using Node.inductNode with
  | step s ih =>
    rw [keyParts_mk]
    split
    · rw [List.flatMap_assoc, tuples]
      exact List.flatMap_congr ih
    · rw [List.flatMap_assoc, objects]
      exact List.flatMap_congr fun k key => ih k.expr (List.mem_map_of_mem key)
    · exact List.flatMap_singleton ..

theorem keyParts_part (parts : PartByPart P) {n : Node} (whole : P n) : ∀ p ∈ keyParts n, P p := by
  induction n using Node.inductNode with
  | step s ih =>
    intro p member
    rw [keyParts_mk] at member
    split at member
    · obtain ⟨c, inside, member⟩ := List.mem_flatMap.mp member
      exact ih c inside (parts.tuple.mp whole c inside) p member
    · obtain ⟨k, inside, member⟩ := List.mem_flatMap.mp member
      exact ih k.expr (List.mem_map_of_mem inside) (parts.object.mp whole k inside) p member
    · exact List.mem_singleton.mp member ▸ whole

theorem flattenKeys_rule : IsRule flattenKeys fun q => { q with groupBy := q.groupBy.flatMap keyParts } where
  still := by
    intro s labelled notSelect
    cases s <;> first | rfl | exact absurd rfl notSelect
  select := fun _ => rfl
  label := fun _ => rfl
  columns := fun _ => rfl
  source := fun _ => rfl
  clauses := by
    intro P parts q each c member
    simp only [Select.clauses, List.mem_append] at member each
    rcases member with (((filter | keys) | order) | skip) | take
    · exact each c (.inl (.inl (.inl (.inl filter))))
    · obtain ⟨key, inside, member⟩ := List.mem_flatMap.mp keys
      exact keyParts_part parts (each key (.inl (.inl (.inl (.inr inside))))) c member
    · exact each c (.inl (.inl (.inr order)))
    · exact each c (.inl (.inr skip))
    · exact each c (.inr take)
  ordinary := by
    intro P parts s ordinary whole
    cases s <;> first | exact whole | cases ordinary

theorem foldLiteral_rule : IsRule foldLiteral id := by
  refine .ofOrdinary (fun s labelled => ?_) fun parts n whole => ?_
  · cases s <;> first | rfl | cases labelled
  · unfold foldLiteral
    split
    · exact parts.constant _ _
    · exact whole

/-- What a call is spliced into, is the call or its arguments. -/
theorem spliced_mem {routine : Routine} {a c : Node} (member : c ∈ spliced routine a) :
    c = a ∨ ∃ arguments type, a = .call routine arguments type ∧ c ∈ arguments := by
  unfold spliced at member
  split at member
  · split at member
    next same => subst same; exact .inr ⟨_, _, rfl, member⟩
    next => exact .inl (List.mem_singleton.mp member)
  · exact .inl (List.mem_singleton.mp member)

theorem flattenCall_rule : IsRule flattenCall id := by
  refine .ofOrdinary (fun s labelled => ?_) fun {P} parts n whole => ?_
  · cases s <;> first | rfl | cases labelled
  · unfold flattenCall
    split
    · rename_i routine arguments type
      split
      · refine parts.call.mpr fun c member => ?_
        obtain ⟨d, inside, member⟩ := List.mem_flatMap.mp member
        have inner : P d := parts.call.mp whole d inside
        rcases spliced_mem member with rfl | ⟨_, _, rfl, listed⟩
        · exact inner
        · exact parts.call.mp inner c listed
      · exact whole
    · exact whole

theorem unwrapCall_rule : IsRule unwrapCall id := by
  refine .ofOrdinary (fun s labelled => ?_) fun {P} parts n whole => ?_
  · cases s <;> first | rfl | cases labelled
  · unfold unwrapCall
    split
    · exact parts.call.mp whole _ (by simp)
    · exact parts.call.mp whole _ (by simp)
    · split
      · exact parts.call.mp whole _ (by simp)
      · exact whole
    · exact whole

theorem simplifyConnective_rule : IsRule simplifyConnective id := by
  have absorbed {P : Node → Prop} (parts : PartByPart P) (absorbing b : Bool) {other : Node} (whole : P other) :
      P (absorb absorbing b other) := by
    unfold absorb
    split
    · exact parts.constant _ _
    · exact whole
  refine .ofOrdinary (fun s labelled => ?_) fun {P} parts n whole => ?_
  · cases s <;> first | rfl | cases labelled
  · unfold simplifyConnective
    split
    · obtain ⟨left, right⟩ := parts.binary.mp whole
      split
      · exact absorbed parts _ _ right
      · exact absorbed parts _ _ left
      · exact whole
    · exact parts.unary.mp (parts.unary.mp whole)
    · split
      · exact parts.constant _ _
      · exact whole
    · exact whole

theorem pruneBranches_part (otherwise : Option Node) (branches : List (Branch Node)) :
    (∀ b ∈ (pruneBranches otherwise branches).1, b ∈ branches) ∧
      ∀ n ∈ (pruneBranches otherwise branches).2, n ∈ otherwise ∨ ∃ b ∈ branches, b.result = n := by
  induction branches with
  | nil => exact ⟨fun _ member => member, fun _ member => .inl member⟩
  | cons b rest ih =>
    have later : (∀ c ∈ (pruneBranches otherwise rest).1, c ∈ b :: rest) ∧
        ∀ n ∈ (pruneBranches otherwise rest).2, n ∈ otherwise ∨ ∃ c ∈ b :: rest, c.result = n :=
      ⟨fun c member => List.mem_cons_of_mem _ (ih.1 c member), fun n member => (ih.2 n member).imp_right
        fun ⟨c, inside, result⟩ => ⟨c, List.mem_cons_of_mem _ inside, result⟩⟩
    unfold pruneBranches
    split
    · exact ⟨fun _ member => absurd member List.not_mem_nil, fun n member => .inr ⟨b, by simp, by simpa using member⟩⟩
    · exact later
    · exact later
    · refine ⟨fun c member => ?_, later.2⟩
      rcases List.mem_cons.mp member with rfl | member
      · exact List.mem_cons_self
      · exact later.1 c member

theorem simplifyConditional_rule : IsRule simplifyConditional id := by
  refine .ofOrdinary (fun s labelled => ?_) fun {P} parts n whole => ?_
  · cases s <;> first | rfl | cases labelled
  · unfold simplifyConditional
    split
    · rename_i branches otherwise type
      obtain ⟨each, last⟩ := parts.conditional.mp whole
      obtain ⟨kept, left⟩ := pruneBranches_part otherwise branches
      have result : ∀ n ∈ (pruneBranches otherwise branches).2, P n := by
        intro n member
        rcases left n member with member | ⟨b, inside, rfl⟩
        · exact last n member
        · exact (each b inside).2
      split
      · split
        · rename_i pruned
          exact result _ (by rw [pruned]; rfl)
        · exact parts.constant _ _
        · refine parts.conditional.mpr ⟨fun b member => each b (kept b ?_), fun n member => result n ?_⟩ <;> simp_all
      · exact whole
    · exact whole

theorem mapM_some_iff {α β : Type} {f : α → Option β} {l : List α} {results : List β} :
    l.mapM f = some results ↔ l.map f = results.map some := by
  induction l generalizing results with
  | nil => cases results <;> simp
  | cons a rest ih =>
    rw [List.mapM_cons, List.map_cons]
    constructor
    · intro mapped
      obtain ⟨first, here, mapped⟩ := Option.bind_eq_some_iff.mp mapped
      obtain ⟨others, later, same⟩ := Option.bind_eq_some_iff.mp mapped
      cases same
      rw [here, ih.mp later, List.map_cons]
    · intro each
      obtain ⟨first, others, rfl⟩ := List.exists_cons_of_ne_nil (l := results) (by rintro rfl; cases each)
      rw [List.map_cons, List.cons.injEq] at each
      rw [each.1, ih.mpr each.2]
      rfl

theorem exists_of_mapM {α β : Type} {f : α → Option β} {l : List α} {results : List β}
    (mapped : l.mapM f = some results) : ∀ b ∈ results, ∃ a ∈ l, f a = some b := by
  intro b member
  have found : some b ∈ l.map f := mapM_some_iff.mp mapped ▸ List.mem_map_of_mem member
  exact List.mem_map.mp found

theorem mem_of_mapM {α β : Type} {f : α → Option β} {l : List α} {results : List β} (mapped : l.mapM f = some results)
    {a : α} {b : β} (member : a ∈ l) (found : f a = some b) : b ∈ results := by
  have listed : some b ∈ results.map some := mapM_some_iff.mp mapped ▸ found ▸ List.mem_map_of_mem member
  simpa using listed

theorem mapM_isSome {α β : Type} {f : α → Option β} {l : List α} : (l.mapM f).isSome ↔ ∀ a ∈ l, (f a).isSome := by
  induction l with
  | nil => simp
  | cons a rest ih =>
    rw [List.mapM_cons, List.forall_mem_cons, ← ih]
    cases f a <;> cases rest.mapM f <;> simp

/-- What membership becomes, by what holds of the parts of the operand and of the values of an item. -/
theorem membership_holds {K Q : Node → Prop} {V : Value → Prop} {operand : Node} {items : List Value}
    (never : Q (.literal (.bool false)))
    (components : ∀ ns, components? operand = some ns → ∀ p ∈ ns, K p)
    (values : ∀ vs, .list vs ∈ items → ∀ v ∈ vs, V v)
    (equal : ∀ {p v}, K p → V v → Q (.equal p (literalLike p v)))
    (both : ∀ {connective a b}, connective.isLogical = true → Q a → Q b → Q (.ofBinary connective a b))
    (single : components? operand = none → Q (.call .isIn (operand :: items.map (literalLike operand)) .boolean)) :
    ∀ n ∈ membership? operand items, Q n := by
  -- One item, compared part by part.
  have equals {ns : List Node} (each : ∀ p ∈ ns, K p) {item : Value} (listed : item ∈ items) :
      ∀ n ∈ equalsItem? ns item, Q n := by
    intro n member
    unfold equalsItem? at member
    split at member
    · split at member
      · refine Node.joinAll_holds (both rfl) (fun q paired => ?_) n member
        rw [← List.map_uncurry_zip_eq_zipWith] at paired
        obtain ⟨pair, inside, rfl⟩ := List.mem_map.mp paired
        obtain ⟨part, value⟩ := List.of_mem_zip inside
        exact equal (each _ part) (values _ listed _ value)
      · cases member
    · cases member
  intro n member
  unfold membership? at member
  split at member
  · exact Option.mem_some.mp member ▸ never
  · split at member
    · rename_i ns found
      obtain ⟨tests, mapped, joined⟩ := Option.bind_eq_some_iff.mp member
      refine Node.joinAll_holds (both rfl) (fun test inside => ?_) n joined
      obtain ⟨item, listed, made⟩ := exists_of_mapM mapped test inside
      exact equals (components ns found) listed test made
    · rename_i scalar
      exact Option.mem_some.mp member ▸ single scalar

theorem components_some {operand : Node} {ns : List Node} (found : components? operand = some ns) :
    ∃ s : Shape Node, operand = .mk s ∧ s.isOrdinary = true ∧ s.children = ns := by
  unfold components? at found
  split at found
  · cases found
    exact ⟨_, rfl, rfl, rfl⟩
  · cases found
    exact ⟨_, rfl, rfl, rfl⟩
  · cases found

theorem membership_part (parts : PartByPart P) {operand : Node} {items : List Value} (whole : P operand) :
    ∀ n ∈ membership? operand items, P n := by
  have literal (p : Node) (value : Value) : P (literalLike p value) := by
    unfold literalLike Node.literal
    split <;> exact parts.constant _ _
  refine membership_holds (K := P) (V := fun _ => True) (parts.constant _ _) (fun ns found => ?_) (fun _ _ _ _ => trivial)
    (fun part _ => parts.binary.mpr ⟨part, literal _ _⟩) (fun _ first second => parts.binary.mpr ⟨first, second⟩) ?_
  · obtain ⟨s, rfl, ordinary, rfl⟩ := components_some found
    exact (parts s ordinary).mp whole
  · exact fun _ =>
      parts.call.mpr (List.forall_mem_cons.mpr ⟨whole, List.forall_mem_map.mpr fun value _ => literal operand value⟩)

theorem expandMembership_rule : IsRule expandMembership id := by
  refine .ofOrdinary (fun s labelled => ?_) fun {P} parts n whole => ?_
  · cases s <;> first | rfl | cases labelled
  · unfold expandMembership
    split
    · rename_i operand items listType type
      cases found : membership? operand items with
      | none => exact whole
      | some n => exact membership_part parts (parts.call.mp whole operand (by simp)) n found
    · exact whole

theorem pairKeys_mem {left right : List (Binding Node)} {pairs : List (Node × Node)}
    (paired : pairKeys? left right = some pairs) :
    ∀ p ∈ pairs, ∃ l ∈ left, ∃ r ∈ right, p = (l.expr, r.expr) := by
  intro pair inside
  unfold pairKeys? at paired
  split at paired
  · cases paired
  · obtain ⟨key, own, found⟩ := exists_of_mapM paired pair inside
    obtain ⟨partner, met, rfl⟩ := Option.map_eq_some_iff.mp found
    exact ⟨key, own, partner, List.mem_of_find?_eq_some met, rfl⟩

/-- What a comparison of entities becomes, by what holds of their keys. -/
theorem compareEntities_holds {K Q : Node → Prop} {op : BinaryOp} {left right : Node}
    (onLeft : ∀ entity keys, left = .object entity keys → ∀ k ∈ keys, K k.expr)
    (onRight : ∀ entity keys, right = .object entity keys → ∀ k ∈ keys, K k.expr)
    (pair : ∀ {a b}, K a → K b → Q (.ofBinary op a b))
    (test : ∀ {a}, K a → Q (.ofUnary .isNull a) ∧ Q (.ofUnary .isNotNull a))
    (both : ∀ {connective a b}, connective.isLogical = true → Q a → Q b → Q (.ofBinary connective a b)) :
    ∀ n ∈ compareEntities? op left right, Q n := by
  -- Compared with a null, every key is tested by itself.
  have tested {keys : List (Binding Node)} (each : ∀ k ∈ keys, K k.expr) (other : Node) :
      ∀ n ∈ (if isNullLiteral other then testKeys? op keys else none), Q n := by
    intro n member
    split at member
    · unfold testKeys? at member
      split at member
      · exact Node.joinAll_holds (both rfl) (List.forall_mem_map.mpr fun k key => (test (each k key)).1) n member
      · exact Node.joinAll_holds (both rfl) (List.forall_mem_map.mpr fun k key => (test (each k key)).2) n member
    · cases member
  intro n member
  unfold compareEntities? at member
  split at member
  · obtain ⟨pairs, paired, compared⟩ := Option.bind_eq_some_iff.mp member
    have joins : (if op = .eq then BinaryOp.and else .or).isLogical = true := by split <;> rfl
    refine Node.joinAll_holds (both joins) (List.forall_mem_map.mpr fun p inside => ?_) n compared
    obtain ⟨l, own, r, partner, rfl⟩ := pairKeys_mem paired p inside
    exact pair (onLeft _ _ rfl l own) (onRight _ _ rfl r partner)
  · exact tested (onLeft _ _ rfl) _ n member
  · exact tested (onRight _ _ rfl) _ n member
  · cases member

theorem compareEntities_part (parts : PartByPart P) {op : BinaryOp} {left right : Node}
    (onLeft : ∀ entity keys, left = .object entity keys → P left)
    (onRight : ∀ entity keys, right = .object entity keys → P right) : ∀ n ∈ compareEntities? op left right, P n :=
  compareEntities_holds (fun _ _ same => parts.object.mp (same ▸ onLeft _ _ same))
    (fun _ _ same => parts.object.mp (same ▸ onRight _ _ same)) (fun first second => parts.binary.mpr ⟨first, second⟩)
    (fun key => ⟨parts.unary.mpr key, parts.unary.mpr key⟩) fun _ first second => parts.binary.mpr ⟨first, second⟩

theorem expandComparison_rule : IsRule expandComparison id := by
  refine .ofOrdinary (fun s labelled => ?_) fun {P} parts n whole => ?_
  · cases s <;> first | rfl | cases labelled
  · unfold expandComparison
    split
    · rename_i op left right type
      split
      · obtain ⟨first, second⟩ := parts.binary.mp whole
        cases found : compareEntities? op left right with
        | none => exact whole
        | some n => exact compareEntities_part parts (fun _ _ _ => first) (fun _ _ _ => second) n found
      · exact whole
    · exact whole

/-- What the passes do to operators; group keys aside. -/
def rules : List (Node → Node) :=
  [flattenCall, simplifyConnective, expandComparison, foldLiteral, unwrapCall, simplifyConditional, expandMembership]

theorem rules_isRule : ∀ rule ∈ rules, IsRule rule id := by
  simp only [rules, List.forall_mem_cons]
  exact ⟨flattenCall_rule, simplifyConnective_rule, expandComparison_rule, foldLiteral_rule, unwrapCall_rule,
    simplifyConditional_rule, expandMembership_rule, fun _ member => absurd member List.not_mem_nil⟩

theorem rules_still : ∀ rule ∈ rules, ∀ s : Shape Node, s.isOrdinary = false → rule (.mk s) = .mk s := by
  intro rule member s labelled
  have isRule := rules_isRule rule member
  by_cases select : s.kind = .select
  · cases s with
    | select q => exact isRule.select q
    | _ => cases select
  · exact isRule.still s labelled select

theorem rules_keep (parts : PartByPart P) : ∀ rule ∈ rules, ∀ n, P n → P (rule n) := by
  rintro rule member ⟨s⟩ before
  by_cases ordinary : s.isOrdinary = true
  · exact (rules_isRule rule member).ordinary parts s ordinary before
  · rwa [rules_still rule member s (by simpa using ordinary)]

end Pass

end QueryTree
