import QueryTree.Proofs.Amend.Positions
import QueryTree.Proofs.Amend.RowNumbers
import QueryTree.Proofs.Node.Erasure
import QueryTree.Proofs.Node.Rewriting

/-! A tree that was amended is left as it is the next time.

Each amender leaves nothing that it would change again, and none of the later ones brings anything that an earlier one
changes. So a dialect finds nothing to do in a tree that it has amended.
-/

set_option autoImplicit false

namespace QueryTree

namespace Amend

variable {n : Node} {fine : Shape Unit → Bool}

/-! ### Bits -/

section Bits

variable {f : Node → Node}

theorem option_still {o : Option Node} (each : ∀ c ∈ o.toList, f c = c) : o.map f = o := by
  cases o with
  | none => rfl
  | some c => exact congrArg some (each c (List.mem_singleton.mpr rfl))

theorem filter_still {o : Option Node} {f : Node → Position → Node} (each : ∀ c ∈ o.toList, f c .predicate = c) :
    (o.map f).map (· .predicate) = o := by
  rw [Option.map_map]
  exact option_still each

theorem positioned_still {s : Shape Node} {f : Node → Position → Node} (tests : ∀ c ∈ s.tests, f c .predicate = c)
    (values : ∀ c ∈ s.values, f c .value = c) : positioned (s.map f) = s := by
  have valued (t : Shape Node) (children : ∀ c ∈ t.children, c ∈ s.values) : (t.map f).map (· .value) = t :=
    (Shape.map_map _ f t).trans (Shape.map_still fun c child => values c (children c child))
  have whole := valued s
  cases s with
  | binary op left right type =>
    cases logical : op.isLogical with
    | true =>
      have both : f left .predicate = left ∧ f right .predicate = right := by simpa [logical] using tests
      simp only [positioned, Shape.map, logical, if_true, both]
    | false =>
      have both : f left .value = left ∧ f right .value = right := by simpa [logical] using values
      simp only [positioned, Shape.map, logical, Bool.false_eq_true, if_false, both]
  | unary op operand type =>
    by_cases negation : op = .not
    · have same : f operand .predicate = operand := by simpa [negation] using tests
      simp only [positioned, Shape.map, negation, if_true, same]
    · have same : f operand .value = operand := by simpa [negation] using values
      simp only [positioned, Shape.map, negation, if_false, same]
  | select q =>
    -- Apart from its filter a select is made of values.
    let rest : Select Node := { q with filter := none }
    have same : (rest.map f).map (· .value) = rest :=
      Shape.select.inj (valued (.select rest) (by simp [rest, Shape.children, Select.children, Shape.values]))
    change Shape.select { (rest.map f).map (· .value) with filter := (q.filter.map f).map (· .predicate) } = _
    rw [same, filter_still tests]
  | join kind left right condition =>
    have both : f left .value = left ∧ f right .value = right := by simpa using values
    change Shape.join kind (f left .value) (f right .value) ((condition.map f).map (· .predicate)) = _
    rw [filter_still tests, both.1, both.2]
  | conditional branches otherwise type =>
    have each : ∀ b ∈ branches, (⟨f b.condition .predicate, f b.result .value⟩ : Branch Node) = b := by
      intro b member
      congr 1
      · exact tests _ (List.mem_map_of_mem member)
      · exact values _ (List.mem_append_left _ (List.mem_map_of_mem member))
    have same := (List.map_congr_left each).trans (List.map_id' branches)
    have last : (otherwise.map f).map (· .value) = otherwise := by
      rw [Option.map_map]
      exact option_still fun c member => values c (List.mem_append_right _ member)
    change Shape.conditional ((branches.map _).map _) ((otherwise.map f).map (· .value)) type = _
    rw [last, List.map_map]
    exact congrArg (fun branches => Shape.conditional branches otherwise type) same
  | update u =>
    let rest : Update Node := { u with filter := none }
    have same : (rest.map f).map (· .value) = rest :=
      Shape.update.inj (valued (.update rest) (by simp [rest, Shape.children, Update.children, Shape.values]))
    change Shape.update { (rest.map f).map (· .value) with filter := (u.filter.map f).map (· .predicate) } = _
    rw [same, filter_still tests]
  | delete owner label filter =>
    change Shape.delete owner label ((filter.map f).map (· .predicate)) = _
    rw [filter_still tests]
  | createIndex i =>
    change Shape.createIndex { i with filter := (i.filter.map f).map (· .predicate) } = _
    rw [filter_still tests]
  | _ => exact whole fun c child => child

theorem retyped_self (s : Shape Node) : retyped s s = .mk s := by
  unfold retyped
  split
  · exact if_pos (Node.alike_iff_erase.mpr rfl)
  · rfl

theorem atPosition_suited {position : Position} {n : Node} (suits : Suits position n) : atPosition position n = n := by
  cases position with
  | predicate => exact if_neg (by simp [show isBit n = false from suits])
  | value => exact if_neg (by simp [show n.isPredicate = false from suits])

/-- Where everything is in its place there is nothing to normalize. -/
theorem normalizeBits_still {n : Node} (placed : n.Placed) {position : Position} (suits : Suits position n) :
    normalizeBits n position = n := by
  induction n using Node.inductNode generalizing position with
  | step s ih =>
    obtain ⟨tests, values⟩ := Node.placed_mk.mp placed
    have same : positioned (s.map normalizeBits) = s := by
      refine positioned_still (fun c test => ?_) fun c value => ?_
      · exact ih c (Shape.mem_children_iff.mpr (.inl test)) (tests c test).2 (tests c test).1
      · exact ih c (Shape.mem_children_iff.mpr (.inr value)) (values c value).2 (values c value).1
    rw [normalizeBits_mk, same, retyped_self, atPosition_suited suits]

theorem positioned_bare {α : Type} (s : Shape (Position → α)) : (positioned s).bare = s.bare := by
  have whole := Shape.bare_map (fun node : Position → α => node .value) s
  cases s with
  | select q => simp [positioned, Shape.bare, Shape.map, Select.map, Binding.map, OrderItem.map, Function.comp_def]
  | conditional branches otherwise type => simp [positioned, Shape.bare, Shape.map, Branch.map, Function.comp_def]
  | join kind left right condition => simp [positioned, Shape.bare, Shape.map, Function.comp_def]
  | update u => simp [positioned, Shape.bare, Shape.map, Update.map, Binding.map, Function.comp_def]
  | delete owner label filter => simp [positioned, Shape.bare, Shape.map, Function.comp_def]
  | createIndex i => simp [positioned, Shape.bare, Shape.map, CreateIndex.map, Function.comp_def]
  | binary op left right type => rfl
  | unary op operand type => rfl
  | _ => exact whole

theorem every_literal (free : Shape.Free fine [.constant]) (value : Value) : (Node.literal value).every fine = true :=
  Node.every_free free (by simp [Shape.kind]) fun _ member => absurd member List.not_mem_nil

theorem atPosition_every (free : Shape.Free fine [.constant, .binary, .conditional]) (position : Position)
    (given : n.every fine = true) : (atPosition position n).every fine = true := by
  have literal := every_literal (free.mono (by simp))
  cases position with
  | predicate =>
    unfold atPosition
    dsimp only
    split
    · exact Node.every_free free (by simp [Shape.kind]) (by simp [Shape.children, given, literal])
    · exact given
  | value =>
    unfold atPosition
    dsimp only
    split
    · exact Node.every_free free (by simp [Shape.kind]) (by simp [Shape.children, Branch.children, given, literal])
    · exact given

theorem retyped_every (free : Shape.Free fine [.unary]) {before after : Shape Node}
    (given : (Node.mk after).every fine = true) : (retyped before after).every fine = true := by
  unfold retyped
  split
  · split
    · exact given
    · exact Node.every_free free (by simp [Shape.kind]) (Node.every_mk.mp given).2
  · exact given

theorem normalizeBits_every (free : Shape.Free fine [.constant, .binary, .conditional, .unary])
    (given : n.every fine = true) (position : Position) : (normalizeBits n position).every fine = true := by
  induction n using Node.inductNode generalizing position with
  | step s ih =>
    obtain ⟨here, below⟩ := Node.every_mk.mp given
    rw [normalizeBits_mk]
    -- From the outside: what the position adds, the type of a negation, and the layer with its children.
    apply atPosition_every (free.mono (by simp))
    apply retyped_every (free.mono (by simp))
    refine Node.every_mk.mpr ⟨by rwa [positioned_bare, Shape.bare_map], fun c child => ?_⟩
    rw [Shape.mem_children_iff, positioned_tests, positioned_values, Shape.tests_map, Shape.values_map, List.map_map,
      List.map_map] at child
    rcases child with test | value
    · obtain ⟨d, inside, rfl⟩ := List.mem_map.mp test
      have child := Shape.mem_children_iff.mpr (.inl inside)
      exact ih d child (below d child) .predicate
    · obtain ⟨d, inside, rfl⟩ := List.mem_map.mp value
      have child := Shape.mem_children_iff.mpr (.inr inside)
      exact ih d child (below d child) .value

end Bits

/-! ### Rows -/

def skipless : Shape Unit → Bool
  | .select q => q.skip.isNone
  | _ => true

theorem skipless_iff : n.every skipless = true ↔ n.SkipsNone := by
  induction n using Node.inductNode with
  | step s ih =>
    rw [Node.every_mk, Node.skipsNone_mk]
    refine and_congr ?_ (forall₂_congr ih)
    cases s with
    | select q => simp [skipless, Shape.bare, Shape.map, Select.map]
    | _ => simp [skipless, Shape.bare, Shape.map]

/-! ### Identity columns -/

/-- Gives no value for an identity column. -/
def identityless : Shape Unit → Bool
  | .insert i => !i.identityInsert
  | .update u => !u.identityInsert
  | _ => true

theorem bracketed_every (free : Shape.Free fine [.statements, .setCommand, .constant]) (owner : String)
    (given : n.every fine = true) : (bracketed owner n).every fine = true := by
  have setting (on : Bool) : (identityInsert owner on).every fine = true := by
    have literal := every_literal (free.mono (by simp))
    exact Node.every_free free (by simp [Shape.kind]) (by simp [Shape.children, literal])
  exact Node.every_free free (by simp [Shape.kind]) (by simp [Shape.children, setting, given])

theorem identityBrackets_every (free : Shape.Free fine [.insert, .update, .statements, .setCommand, .constant])
    (given : n.every fine = true) : (identityBrackets.amend n).every fine = true := by
  simp only [identityBrackets]
  refine Node.every_mapUp (fun n each => ?_) given
  have below := (Node.every_mk.mp (n.mk_shape.symm ▸ each)).2
  split
  · split
    · exact bracketed_every (free.mono (by simp)) _ (Node.every_free free (by simp [Shape.kind]) below)
    · exact each
  · split
    · exact bracketed_every (free.mono (by simp)) _ (Node.every_free free (by simp [Shape.kind]) below)
    · exact each
  · exact each

theorem identityBrackets_identityless (n : Node) : (identityBrackets.amend n).every identityless = true := by
  have free : Shape.Free identityless [.statements, .setCommand, .constant] := by
    intro s kind
    cases s <;> first | rfl | simp [Shape.kind] at kind
  simp only [identityBrackets]
  refine Node.every_ofMapUp (fun s below => ?_) n
  cases s with
  | insert i =>
    dsimp only
    split
    · exact bracketed_every free _ (Node.every_mk.mpr ⟨rfl, below⟩)
    · rename_i given
      exact Node.every_mk.mpr ⟨by simpa [identityless, Shape.bare, Shape.map, Insert.map] using given, below⟩
  | update u =>
    dsimp only
    split
    · exact bracketed_every free _ (Node.every_mk.mpr ⟨rfl, below⟩)
    · rename_i given
      exact Node.every_mk.mpr ⟨by simpa [identityless, Shape.bare, Shape.map, Update.map] using given, below⟩
  | _ => exact Node.every_mk.mpr ⟨rfl, below⟩

theorem identityBrackets_still (given : n.every identityless = true) : identityBrackets.amend n = n := by
  simp only [identityBrackets]
  refine Node.mapUp_still fun m member => ?_
  obtain ⟨s⟩ := m
  have fine := Node.every_subtree given member
  cases s with
  | insert i => exact if_neg (by simpa [identityless, Shape.bare, Shape.map, Insert.map] using fine)
  | update u => exact if_neg (by simpa [identityless, Shape.bare, Shape.map, Update.map] using fine)
  | _ => rfl

/-! ### Unique indexes -/

/-- If a unique index that can have a filter, then one that has some, or one of no columns. -/
def filtered : Shape Unit → Bool
  | .createIndex i => !i.unique || i.clustered || i.filter.isSome || i.columns.isEmpty
  | _ => true

theorem notNull_every (free : Shape.Free fine [.binary, .unary, .column]) {columns : List IndexedColumn}
    (joined : Node.conjunction (columns.map fun c =>
      .ofUnary .isNotNull (.column { label := "", name := c.name, type := .unknown })) = some n) :
    n.every fine = true := by
  refine Node.joinAll_holds (P := fun n => n.every fine = true) ?_ ?_ n joined
  · intro a b first second
    exact Node.every_free free (by simp [Shape.kind]) (by simp [Shape.children, first, second])
  · rw [List.forall_mem_map]
    intro c _
    have column : (Node.column { label := "", name := c.name, type := .unknown }).every fine = true :=
      Node.every_free free (by simp [Shape.kind]) fun _ member => absurd member List.not_mem_nil
    exact Node.every_free free (by simp [Shape.kind]) (by simp [Shape.children, column])

theorem uniqueIndexes_every (free : Shape.Free fine [.createIndex, .binary, .unary, .column])
    (given : n.every fine = true) : (uniqueIndexes.amend n).every fine = true := by
  simp only [uniqueIndexes]
  refine Node.every_mapUp (fun n each => ?_) given
  split
  · split
    · split
      · rename_i filter joined
        have tests := notNull_every (free.mono (by simp)) joined
        exact Node.every_free free (by simp [Shape.kind]) (by simpa [Shape.children] using tests)
      · exact each
    · exact each
  · exact each

theorem uniqueIndexes_filtered (n : Node) : (uniqueIndexes.amend n).every filtered = true := by
  have free : Shape.Free filtered [.binary, .unary, .column] := by
    intro s kind
    cases s <;> first | rfl | simp [Shape.kind] at kind
  simp only [uniqueIndexes]
  refine Node.every_ofMapUp (fun s below => ?_) n
  cases s with
  | createIndex i =>
    dsimp only
    split
    · split
      · rename_i filter joined
        refine Node.every_mk.mpr ⟨by simp [filtered, Shape.bare, Shape.map, CreateIndex.map], ?_⟩
        simpa [Shape.children] using notNull_every free joined
      · rename_i none
        -- Only no columns at all have no filter.
        have empty : i.columns = [] := by
          cases columns : i.columns with
          | nil => rfl
          | cons c rest => simp [columns, Node.conjunction, Node.joinAll] at none
        exact Node.every_mk.mpr ⟨by simp [filtered, Shape.bare, Shape.map, CreateIndex.map, empty], below⟩
    · rename_i given
      refine Node.every_mk.mpr ⟨?_, below⟩
      simp only [filtered, Shape.bare, Shape.map, CreateIndex.map, Option.isSome_map]
      grind
  | _ => exact Node.every_mk.mpr ⟨rfl, below⟩

theorem uniqueIndexes_still (given : n.every filtered = true) : uniqueIndexes.amend n = n := by
  simp only [uniqueIndexes]
  refine Node.mapUp_still fun m member => ?_
  obtain ⟨s⟩ := m
  have fine := Node.every_subtree given member
  cases s with
  | createIndex i =>
    dsimp only
    split
    · rename_i lacks
      have empty : i.columns = [] := by
        simp only [Bool.and_eq_true, Bool.not_eq_true', Option.isNone_iff_eq_none] at lacks
        simpa [filtered, Shape.bare, Shape.map, CreateIndex.map, lacks] using fine
      simp [empty, Node.conjunction, Node.joinAll]
    · rfl
  | _ => rfl

/-! ### Clustered indexes -/

/-- If a primary key, then one declared not clustered. -/
def yielding : Shape Unit → Bool
  | .constraint _ (.primaryKey _ clustered) => clustered == some false
  | _ => true

/-- A list that creates a clustered index on a table declares the primary key of the table, where it defines that, not
clustered. -/
def KeysYield (list : List Node) : Prop :=
  ∀ m ∈ list, ∀ owner, definedTable? m = some owner → owner ∈ list.filterMap clusteredTable? → m.every yielding = true

theorem withoutClusteredKey_every (free : Shape.Free fine [.constraint]) (given : n.every fine = true) :
    (withoutClusteredKey n).every fine = true := by
  refine Node.every_mapUp (fun n each => ?_) given
  split
  · exact Node.every_free free (by simp [Shape.kind]) (Node.every_mk.mp each).2
  · exact each

theorem withoutClusteredKey_yielding (n : Node) : (withoutClusteredKey n).every yielding = true := by
  refine Node.every_ofMapUp (fun s below => ?_) n
  cases s with
  | constraint name kind => cases kind <;> exact Node.every_mk.mpr ⟨rfl, below⟩
  | _ => exact Node.every_mk.mpr ⟨rfl, below⟩

theorem withoutClusteredKey_still (given : n.every yielding = true) : withoutClusteredKey n = n := by
  refine Node.mapUp_still fun m member => ?_
  obtain ⟨s⟩ := m
  have fine := Node.every_subtree given member
  cases s with
  | constraint name kind =>
    cases kind with
    | primaryKey columns clustered =>
      obtain rfl : clustered = some false := by simpa [yielding, Shape.bare, Shape.map, ConstraintKind.map] using fine
      rfl
    | _ => rfl
  | _ => rfl

theorem tables_mapUp {rule : Node → Node} (defined : ∀ n, definedTable? (rule n) = definedTable? n)
    (clustered : ∀ n, clusteredTable? (rule n) = clusteredTable? n) (n : Node) :
    definedTable? (n.mapUp rule) = definedTable? n ∧ clusteredTable? (n.mapUp rule) = clusteredTable? n := by
  constructor
  · exact Node.mapUp_outermost (fun s f => by cases s <;> rfl) defined n
  · exact Node.mapUp_outermost (fun s f => by cases s <;> rfl) clustered n

theorem withoutClusteredKey_tables (n : Node) : definedTable? (withoutClusteredKey n) = definedTable? n ∧
    clusteredTable? (withoutClusteredKey n) = clusteredTable? n := by
  refine tables_mapUp (fun n => ?_) (fun n => ?_) n
  · split <;> rfl
  · split <;> rfl

theorem filterMap_clusteredTable {f : Node → Node} (clustered : ∀ m, clusteredTable? (f m) = clusteredTable? m)
    (list : List Node) : (list.map f).filterMap clusteredTable? = list.filterMap clusteredTable? := by
  rw [List.filterMap_map]
  exact congrArg (fun look => list.filterMap look) (funext clustered)

theorem KeysYield.map {list : List Node} {f : Node → Node} (given : KeysYield list)
    (tables : ∀ m, definedTable? (f m) = definedTable? m ∧ clusteredTable? (f m) = clusteredTable? m)
    (kept : ∀ m, m.every yielding = true → (f m).every yielding = true) : KeysYield (list.map f) := by
  unfold KeysYield
  rw [filterMap_clusteredTable fun m => (tables m).2, List.forall_mem_map]
  intro m member owner defines creates
  exact kept m (given m member owner ((tables m).1.symm.trans defines) creates)

theorem KeysYield.filter {list : List Node} (given : KeysYield list) (p : Node → Bool) : KeysYield (list.filter p) := by
  intro m member owner defines creates
  obtain ⟨other, inside, creates⟩ := List.mem_filterMap.mp creates
  exact given m (List.mem_filter.mp member).1 owner defines
    (List.mem_filterMap.mpr ⟨other, (List.mem_filter.mp inside).1, creates⟩)

theorem withoutClusteredKey_lists (given : n.Lists KeysYield) : (withoutClusteredKey n).Lists KeysYield := by
  refine Node.lists_mapUp (fun s notList below => ?_) (fun list before below => ?_) given
  · cases s with
    | constraint name kind => cases kind <;> exact (Node.lists_other (by simp [Shape.kind])).mpr below
    | statements list => exact absurd rfl notList
    | _ => exact (Node.lists_other notList).mpr below
  · refine Node.lists_statements.mpr ⟨?_, List.forall_mem_map.mpr below⟩
    exact before.map withoutClusteredKey_tables fun m _ => withoutClusteredKey_yielding m

/-- A listed statement, its key not clustered where it defines one of these tables. -/
def yieldKey (tables : List String) (m : Node) : Node :=
  match definedTable? m with
  | some owner => if tables.contains owner then withoutClusteredKey m else m
  | none => m

theorem yieldKey_holds {P : Node → Prop} {tables : List String} {m : Node} (changed : P (withoutClusteredKey m))
    (same : P m) : P (yieldKey tables m) := by
  unfold yieldKey
  split
  · split
    · exact changed
    · exact same
  · exact same

theorem yieldKey_tables (tables : List String) (m : Node) : definedTable? (yieldKey tables m) = definedTable? m ∧
    clusteredTable? (yieldKey tables m) = clusteredTable? m :=
  yieldKey_holds (P := fun k => definedTable? k = definedTable? m ∧ clusteredTable? k = clusteredTable? m)
    (withoutClusteredKey_tables m) ⟨rfl, rfl⟩

theorem keysYield_yieldKey (list : List Node) : KeysYield (list.map (yieldKey (list.filterMap clusteredTable?))) := by
  intro m member owner defines creates
  obtain ⟨m, inside, rfl⟩ := List.mem_map.mp member
  -- The tables are those of the list as it was, for no key decides what a statement creates.
  rw [filterMap_clusteredTable fun m => (yieldKey_tables _ m).2] at creates
  rw [(yieldKey_tables _ m).1] at defines
  simp only [yieldKey, defines, List.contains_iff_mem.mpr creates, if_true]
  exact withoutClusteredKey_yielding m

theorem clusteredIndexes_every (free : Shape.Free fine [.statements, .constraint]) (given : n.every fine = true) :
    (clusteredIndexes.amend n).every fine = true := by
  simp only [clusteredIndexes]
  refine Node.every_mapUp (fun n each => ?_) given
  split
  · refine Node.every_free free (by simp [Shape.kind]) (List.forall_mem_map.mpr fun m member => ?_)
    have kept := (Node.every_mk.mp each).2 m member
    exact yieldKey_holds (P := fun k => k.every fine = true) (withoutClusteredKey_every (free.mono (by simp)) kept) kept
  · exact each

theorem clusteredIndexes_lists (n : Node) : (clusteredIndexes.amend n).Lists KeysYield := by
  have given : n.Lists fun _ => True := fun _ _ => trivial
  simp only [clusteredIndexes]
  refine Node.lists_mapUp (fun s notList below => ?_) (fun list _ below => ?_) given
  · cases s with
    | statements list => exact absurd rfl notList
    | _ => exact (Node.lists_other notList).mpr below
  · rw [← List.forall_mem_map] at below
    generalize list.map _ = list at below
    refine Node.lists_statements.mpr ⟨keysYield_yieldKey list, List.forall_mem_map.mpr fun m member => ?_⟩
    exact yieldKey_holds (withoutClusteredKey_lists (below m member)) (below m member)

theorem clusteredIndexes_still (given : n.Lists KeysYield) : clusteredIndexes.amend n = n := by
  simp only [clusteredIndexes]
  refine Node.mapUp_still fun m member => ?_
  obtain ⟨s⟩ := m
  cases s with
  | statements list =>
    have yields : KeysYield list := given list member
    refine congrArg Node.statements ((List.map_congr_left fun m inside => ?_).trans (List.map_id' list))
    split
    · rename_i owner defines
      split
      · rename_i creates
        exact withoutClusteredKey_still (yields m inside owner defines (List.contains_iff_mem.mp creates))
      · rfl
    · rfl
  | _ => rfl

/-! ### Enumerations -/

/-- A list that defines no enumerations. -/
def DefinesNone (list : List Node) : Prop := ∀ m ∈ list, isEnumDefinition m = false

def withoutDefinitions : Node → Node :=
  Node.mapUp fun n =>
    match n with
    | .statements list => .statements (list.filter fun s => !isEnumDefinition s)
    | n => n

theorem enumDefinitions_amend (n : Node) :
    enumDefinitions.amend n = if isEnumDefinition n then .statements [] else withoutDefinitions n := rfl

theorem withoutDefinitions_tables (n : Node) : definedTable? (withoutDefinitions n) = definedTable? n ∧
    clusteredTable? (withoutDefinitions n) = clusteredTable? n := by
  refine tables_mapUp (fun n => ?_) (fun n => ?_) n
  · split <;> rfl
  · split <;> rfl

theorem withoutDefinitions_every (free : Shape.Free fine [.statements]) (given : n.every fine = true) :
    (withoutDefinitions n).every fine = true := by
  refine Node.every_mapUp (fun n each => ?_) given
  split
  · refine Node.every_free free (by simp [Shape.kind]) fun m member => ?_
    exact (Node.every_mk.mp each).2 m (List.mem_filter.mp member).1
  · exact each

theorem withoutDefinitions_lists {before after : List Node → Prop} (given : n.Lists before)
    (kept : ∀ list, before list → after ((list.map withoutDefinitions).filter fun s => !isEnumDefinition s)) :
    (withoutDefinitions n).Lists after := by
  refine Node.lists_mapUp (fun s notList below => ?_) (fun list fine below => ?_) given
  · cases s with
    | statements list => exact absurd rfl notList
    | _ => exact (Node.lists_other notList).mpr below
  · refine Node.lists_statements.mpr ⟨kept list fine, fun m member => ?_⟩
    exact List.forall_mem_map.mpr below m (List.mem_filter.mp member).1

theorem enumDefinitions_every (free : Shape.Free fine [.statements]) (given : n.every fine = true) :
    (enumDefinitions.amend n).every fine = true := by
  rw [enumDefinitions_amend]
  split
  · exact Node.every_free free (by simp [Shape.kind]) fun _ member => absurd member List.not_mem_nil
  · exact withoutDefinitions_every free given

theorem enumDefinitions_lists (given : n.Lists KeysYield) : (enumDefinitions.amend n).Lists KeysYield := by
  rw [enumDefinitions_amend]
  split
  · exact Node.lists_empty fun _ member => absurd member List.not_mem_nil
  · refine withoutDefinitions_lists given fun list fine => KeysYield.filter ?_ _
    refine fine.map withoutDefinitions_tables fun m each => withoutDefinitions_every (fun s kind => ?_) each
    cases s <;> first | rfl | simp [Shape.kind] at kind

theorem enumDefinitions_definesNone (n : Node) : (enumDefinitions.amend n).Lists DefinesNone := by
  rw [enumDefinitions_amend]
  split
  · exact Node.lists_empty fun _ member => absurd member List.not_mem_nil
  · have given : n.Lists fun _ => True := fun _ _ => trivial
    refine withoutDefinitions_lists given fun list _ m member => ?_
    simpa using (List.mem_filter.mp member).2

theorem withoutDefinitions_definition (n : Node) : isEnumDefinition (withoutDefinitions n) = isEnumDefinition n := by
  refine Node.mapUp_outermost (fun s f => by cases s <;> rfl) (fun n => ?_) n
  split <;> rfl

theorem enumDefinitions_notDefinition (n : Node) : isEnumDefinition (enumDefinitions.amend n) = false := by
  rw [enumDefinitions_amend]
  split
  · rfl
  · rename_i other
    rw [withoutDefinitions_definition]
    exact eq_false_of_ne_true other

theorem enumDefinitions_still (root : isEnumDefinition n = false) (given : n.Lists DefinesNone) :
    enumDefinitions.amend n = n := by
  rw [enumDefinitions_amend, root, if_neg Bool.false_ne_true]
  refine Node.mapUp_still fun m member => ?_
  obtain ⟨s⟩ := m
  cases s with
  | statements list =>
    have none : DefinesNone list := given list member
    refine congrArg Node.statements (List.filter_eq_self.mpr fun m inside => ?_)
    simp [none m inside]
  | _ => rfl

theorem enumDefinitions_idempotent (n : Node) :
    enumDefinitions.amend (enumDefinitions.amend n) = enumDefinitions.amend n :=
  enumDefinitions_still (enumDefinitions_notDefinition n) (enumDefinitions_definesNone n)

/-! ### Statements -/

/-- What amends statements for SQL Server. -/
def amendStatements (n : Node) : Node :=
  enumDefinitions.amend (clusteredIndexes.amend (uniqueIndexes.amend (identityBrackets.amend n)))

/-- Nothing is left to be amended in statements. -/
structure Settled (n : Node) : Prop where
  identityless : n.every identityless = true
  filtered : n.every filtered = true
  keysYield : n.Lists KeysYield
  definesNone : n.Lists DefinesNone
  notDefinition : isEnumDefinition n = false

theorem amendStatements_settled (n : Node) : Settled (amendStatements n) where
  identityless := by
    have brackets := identityBrackets_identityless n
    have indexes := uniqueIndexes_every (fun s kind => ?_) brackets
    have keys := clusteredIndexes_every (fun s kind => ?_) indexes
    refine enumDefinitions_every (fun s kind => ?_) keys
    all_goals cases s <;> first | rfl | simp [Shape.kind] at kind
  filtered := by
    have indexes := uniqueIndexes_filtered (identityBrackets.amend n)
    have keys := clusteredIndexes_every (fun s kind => ?_) indexes
    refine enumDefinitions_every (fun s kind => ?_) keys
    all_goals cases s <;> first | rfl | simp [Shape.kind] at kind
  keysYield := enumDefinitions_lists (clusteredIndexes_lists _)
  definesNone := enumDefinitions_definesNone _
  notDefinition := enumDefinitions_notDefinition _

theorem Settled.still (settled : Settled n) : amendStatements n = n := by
  unfold amendStatements
  rw [identityBrackets_still settled.identityless, uniqueIndexes_still settled.filtered,
    clusteredIndexes_still settled.keysYield, enumDefinitions_still settled.notDefinition settled.definesNone]

theorem amendStatements_skipless (given : n.every skipless = true) : (amendStatements n).every skipless = true := by
  have brackets := identityBrackets_every (fun s kind => ?_) given
  have indexes := uniqueIndexes_every (fun s kind => ?_) brackets
  have keys := clusteredIndexes_every (fun s kind => ?_) indexes
  refine enumDefinitions_every (fun s kind => ?_) keys
  all_goals cases s <;> first | rfl | simp [Shape.kind] at kind

end Amend

/-! ### Dialects -/

theorem Dialect.sqlServer_amend (paging : Paging) (n : Node) : (sqlServer paging).amend n = Amend.amendStatements
    (Amend.normalizeBits (if paging = .rowNumber then Amend.rowNumbers.amend n else n) .value) := by
  cases paging with
  | rowNumber => rfl
  | offsetFetch => rfl

theorem Dialect.sqlServer_skipsNone (n : Node) : ((sqlServer .rowNumber).amend n).SkipsNone := by
  have skips := Amend.skipless_iff.mpr (Amend.rowNumbers_skipsNone n)
  have operators : Shape.Free Amend.skipless [.constant, .binary, .conditional, .unary] := by
    intro s kind
    cases s <;> first | rfl | simp [Shape.kind] at kind
  rw [sqlServer_amend, if_pos rfl, ← Amend.skipless_iff]
  exact Amend.amendStatements_skipless (Amend.normalizeBits_every operators skips .value)

/-- A tree that has every test and bit in its place, and statements with nothing to amend, is left as it is. -/
theorem Dialect.sqlServer_still (paging : Paging) {n : Node} (skips : paging = .rowNumber → n.SkipsNone)
    (placed : n.Placed) (value : n.isPredicate = false) (settled : Amend.Settled n) :
    (sqlServer paging).amend n = n := by
  have numbered : (if paging = .rowNumber then Amend.rowNumbers.amend n else n) = n := by
    split
    · rename_i pages
      exact Amend.rowNumbers_still (skips pages)
    · rfl
  have positions : Amend.normalizeBits n .value = n := Amend.normalizeBits_still placed value
  -- Each amender in turn finds nothing to do, so it hands the same tree to the next.
  rw [sqlServer_amend, numbered, positions, settled.still]

theorem Dialect.sqlServer_idempotent (paging : Paging) (n : Node) :
    (sqlServer paging).amend ((sqlServer paging).amend n) = (sqlServer paging).amend n := by
  obtain ⟨placed, value⟩ := sqlServer_placed paging n
  refine sqlServer_still paging (fun pages => ?_) placed value ?_
  · subst pages
    exact sqlServer_skipsNone n
  · rw [sqlServer_amend]
    exact Amend.amendStatements_settled _

theorem Shipped.amend_still (d : Shipped) {n : Node} (skips : n.SkipsNone) (placed : n.Placed)
    (value : n.isPredicate = false) (settled : Amend.Settled n) : d.dialect.amend n = n := by
  cases d with
  | postgres => rfl
  | sqlite => exact Amend.enumDefinitions_still settled.notDefinition settled.definesNone
  | sqlServer paging => exact Dialect.sqlServer_still paging (fun _ => skips) placed value settled

/-- A dialect leaves a tree that it has amended as it is. -/
theorem Shipped.amend_idempotent (d : Shipped) (n : Node) :
    d.dialect.amend (d.dialect.amend n) = d.dialect.amend n := by
  cases d with
  | postgres => rfl
  | sqlite => exact Amend.enumDefinitions_idempotent n
  | sqlServer paging => exact Dialect.sqlServer_idempotent paging n

end QueryTree
