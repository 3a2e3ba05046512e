import Mathlib.Data.List.Basic
import QueryTree.Proofs.Node.Erasure
import QueryTree.Proofs.Node.Labels
import QueryTree.Proofs.Node.Rewriting
import QueryTree.Proofs.Pass.Rules
import QueryTree.Proofs.Rows.Interpretation

/-! Memberships, and what they are expanded to.

A membership in a literal list means the same once its items are given one by one, or sought part by part, and a
composite is not sought among items of another number of parts. But a single item that is itself a list is then taken
for the list to seek in. Where no scalar is sought in a list of one list, every tree keeps its meaning, and expanding
again changes nothing.
-/

set_option autoImplicit false

namespace QueryTree

/-! ### Lists of one list -/

namespace Node

def isComposite : Node → Bool
  | .mk s => s.isComposite

def items? : Node → Option (List Value)
  | .mk s => s.items?

/-- A scalar is sought in a list of one list. -/
def nests : Node → Bool
  | .call .isIn [x, list] _ => !x.isComposite && list.items?.any fun
    | [.list _] => true
    | _ => false
  | _ => false

theorem flat_items {operand : Node} {items : List Value} {listType type : DataType}
    (flat : (call .isIn [operand, .constant (.list items) listType] type).nests = false)
    (scalar : operand.isComposite = false) (values : List Value) : items ≠ [.list values] := by
  rintro rfl
  simp [nests, items?, Shape.items?, scalar] at flat

def NestsNone (n : Node) : Prop := ∀ m ∈ n.subtrees, m.nests = false

theorem nests_map {f : Node → Node} (composite : ∀ n, (f n).isComposite = n.isComposite)
    (items : ∀ n, (f n).items? = n.items?) (s : Shape Node) : (Node.mk (s.map f)).nests = (Node.mk s).nests := by
  cases s with
  | call routine arguments type =>
    cases routine <;> rcases arguments with _ | ⟨x, _ | ⟨list, _ | _⟩⟩ <;> simp [Shape.map, nests, composite, items]
  | _ => rfl

end Node

namespace Pass

variable {operand : Node} {parts : List Node} {items : List Value}

theorem literalLike_eq (n : Node) (value : Value) : ∃ type, literalLike n value = .constant value type := by
  unfold literalLike
  split
  · exact ⟨_, rfl⟩
  · exact ⟨_, rfl⟩

theorem items_literalLike (n : Node) (value : Value) :
    (literalLike n value).items? = match value with | .list values => some values | _ => none := by
  obtain ⟨type, same⟩ := literalLike_eq n value
  rw [same]
  cases value <;> rfl

theorem given_items (flat : ∀ values, items ≠ [.list values]) {list : Node}
    (only : items.map (literalLike operand) = [list]) : list.items? = none := by
  obtain ⟨item, rfl⟩ : ∃ item, items = [item] := by
    rw [← List.length_eq_one_iff]
    simpa using congrArg List.length only
  obtain rfl : literalLike operand item = list := List.singleton_inj.mp only
  rw [items_literalLike]
  split
  · exact absurd rfl (flat _)
  · rfl

theorem components_isSome (n : Node) : (components? n).isSome = n.isComposite := by
  obtain ⟨s⟩ := n
  cases s <;> rfl

theorem components_none {n : Node} : components? n = none ↔ n.isComposite = false := by
  rw [← components_isSome, Option.isSome_eq_false_iff, Option.isNone_iff_eq_none]

theorem expandMembership_cases (n : Node) : expandMembership n = n ∨
    ∃ operand items listType type, n = .call .isIn [operand, .constant (.list items) listType] type ∧
      ∃ m, membership? operand items = some m ∧ expandMembership n = m := by
  unfold expandMembership
  split
  · rename_i operand items listType type
    cases found : membership? operand items with
    | none => exact .inl rfl
    | some m => exact .inr ⟨operand, items, listType, type, rfl, m, found, rfl⟩
  · exact .inl rfl

theorem membership_outermost : ∀ n ∈ membership? operand items, components? n = none ∧ n.items? = none :=
  membership_holds (K := fun _ => True) (V := fun _ => True) ⟨rfl, rfl⟩ (fun _ _ _ _ => trivial)
    (fun _ _ _ _ => trivial) (fun _ _ => ⟨rfl, rfl⟩) (fun _ _ _ => ⟨rfl, rfl⟩) fun _ => ⟨rfl, rfl⟩

theorem expandMembership_outermost (n : Node) :
    components? (expandMembership n) = components? n ∧ (expandMembership n).items? = n.items? := by
  obtain still | ⟨operand, items, listType, type, rfl, m, found, made⟩ := expandMembership_cases n
  · rw [still]
    exact ⟨rfl, rfl⟩
  · rw [made]
    exact membership_outermost m found

theorem membership_mk (s : Shape Node) :
    membership.transform (.mk s) = expandMembership (.mk (s.map membership.transform)) := Node.mapUp_mk expandMembership s

theorem components_transform (n : Node) :
    components? (membership.transform n) = (components? n).map (·.map membership.transform) := by
  obtain ⟨s⟩ := n
  rw [membership_mk, (expandMembership_outermost _).1]
  cases s with
  | object entity keys => simp [Shape.map, components?, Binding.map]
  | _ => rfl

theorem membership_isComposite (n : Node) : (membership.transform n).isComposite = n.isComposite := by
  rw [← components_isSome, components_transform, Option.isSome_map, components_isSome]

theorem membership_items (n : Node) : (membership.transform n).items? = n.items? :=
  Node.mapUp_outermost (fun s f => Shape.items_map f s) (fun n => (expandMembership_outermost n).2) n

/-- Once its children are expanded, a layer nests lists as it did. -/
theorem membership_nests (s : Shape Node) : (Node.mk (s.map membership.transform)).nests = (Node.mk s).nests :=
  Node.nests_map membership_isComposite membership_items s

/-! ### What is not expanded -/

theorem equalsItem_isSome (item : Value) :
    (equalsItem? parts item).isSome ↔ parts ≠ [] ∧ ∃ values, item = .list values ∧ values.length = parts.length := by
  unfold equalsItem?
  split
  · rename_i values
    split
    · rename_i even
      cases parts with
      | nil => simp [Node.conjunction, Node.joinAll]
      | cons part rest =>
        obtain ⟨value, others, rfl⟩ := List.exists_cons_of_length_eq_add_one even
        exact ⟨fun _ => ⟨List.cons_ne_nil _ _, _, rfl, even⟩, fun _ => rfl⟩
    · rename_i uneven
      simp [uneven]
  · rename_i noList
    simp only [Option.isSome_none, Bool.false_eq_true, false_iff]
    rintro ⟨-, values, rfl, -⟩
    exact noList values rfl

theorem membership_scalar (scalar : components? operand = none) (filled : items ≠ []) :
    membership? operand items = some (.call .isIn (operand :: items.map (literalLike operand)) .boolean) := by
  unfold membership?
  rw [if_neg (by simpa using filled), scalar]

theorem membership_composite (composite : components? operand = some parts) (filled : items ≠ []) :
    membership? operand items = (items.mapM (equalsItem? parts)).bind Node.disjunction := by
  unfold membership?
  rw [if_neg (by simpa using filled), composite]

theorem disjunction_isSome {tests : List Node} (filled : tests ≠ []) : (Node.disjunction tests).isSome := by
  obtain ⟨test, rest, rfl⟩ := List.exists_cons_of_ne_nil filled
  rfl

/-- A composite is sought part by part just in case it has parts and every item has as many. -/
theorem membership_isSome (composite : components? operand = some parts) (filled : items ≠ []) :
    (membership? operand items).isSome ↔
      ∀ item ∈ items, parts ≠ [] ∧ ∃ values, item = .list values ∧ values.length = parts.length := by
  have each : (items.mapM (equalsItem? parts)).isSome ↔
      ∀ item ∈ items, parts ≠ [] ∧ ∃ values, item = .list values ∧ values.length = parts.length := by
    rw [mapM_isSome]
    exact forall₂_congr fun item _ => equalsItem_isSome item
  rw [← each, membership_composite composite filled]
  cases found : items.mapM (equalsItem? parts) with
  | none => exact Iff.rfl
  | some tests =>
    have same : tests ≠ [] := by
      rintro rfl
      exact filled (List.map_eq_nil_iff.mp (mapM_some_iff.mp found))
    exact ⟨fun _ => rfl, fun _ => disjunction_isSome same⟩

/-- Where an item is of another number of parts, a composite is left to be sought as it was. -/
theorem membership_uneven {listType type : DataType} {item : Value} (composite : components? operand = some parts)
    (listed : item ∈ items) (uneven : ∀ values, item = .list values → values.length ≠ parts.length) :
    membership.transform (.call .isIn [operand, .constant (.list items) listType] type) =
      .call .isIn [membership.transform operand, .constant (.list items) listType] type := by
  have expanded : components? (membership.transform operand) = some (parts.map membership.transform) := by
    rw [components_transform, composite, Option.map_some]
  have untold : membership? (membership.transform operand) items = none := by
    rw [Option.eq_none_iff_forall_not_mem]
    intro n told
    have even := (membership_isSome expanded (List.ne_nil_of_mem listed)).mp (Option.isSome_of_mem told)
    obtain ⟨-, values, same, length⟩ := even item listed
    exact uneven values same (by simpa using length)
  have rebuilt : membership.transform (.call .isIn [operand, .constant (.list items) listType] type) =
      expandMembership (.call .isIn [membership.transform operand, .constant (.list items) listType] type) :=
    membership_mk (.call .isIn [operand, .constant (.list items) listType] type)
  rw [rebuilt, expandMembership, untold, Option.getD_none]

/-! ### What a membership means -/

theorem map_of_mapM {α β γ : Type} {f : α → Option β} {g : β → γ} {h : α → γ} {l : List α} {results : List β}
    (mapped : l.mapM f = some results) (each : ∀ a ∈ l, ∀ b, f a = some b → g b = h a) : results.map g = l.map h := by
  have same (a : α) (member : a ∈ l) : (f a).map g = some (h a) := by
    obtain ⟨b, found⟩ := Option.isSome_iff_exists.mp (mapM_isSome.mp (Option.isSome_of_mem mapped) a member)
    rw [found, Option.map_some, each a member b found]
  apply List.map_injective_iff.mpr (Option.some_injective γ)
  calc (results.map g).map some = (results.map some).map (Option.map g) := by simp
    _ = (l.map f).map (Option.map g) := by rw [mapM_some_iff.mp mapped]
    _ = l.map fun a => some (h a) := by rw [List.map_map]; exact List.map_congr_left same
    _ = (l.map h).map some := List.map_map.symm

section Meaning

variable {A : Type} (i : Interpretation A)

theorem sense_literalLike (n : Node) (value : Value) : (i.sense (literalLike n value)).value = fun _ => value := by
  obtain ⟨type, same⟩ := literalLike_eq n value
  rw [same, i.sense_constant]

theorem sense_composite (n : Node) : (i.sense n).composite = n.isComposite := by
  obtain ⟨s⟩ := n
  rw [i.sense_mk]
  exact Shape.isComposite_map _ s

theorem sense_items (n : Node) : (i.sense n).items? = n.items? := by
  obtain ⟨s⟩ := n
  rw [i.sense_mk]
  exact Shape.items_map _ s

theorem sense_parts (composite : components? operand = some parts) (a : A) :
    (i.sense operand).value a = .list (parts.map fun part => (i.sense part).value a) := by
  unfold components? at composite
  split at composite
  · cases composite
    rw [i.sense_mk]
    exact congrArg Value.list (by simp)
  · cases composite
    rw [i.sense_mk]
    exact congrArg Value.list (by simp [Binding.map])
  · cases composite

/-- Whether an operand is one of several values. -/
def sought (operand : Node) (items : List Value) (a : A) : Option Bool :=
  Truth.any (items.map (i.equalItem operand.isComposite ((i.sense operand).value a)))

theorem sense_isIn (operand : Node) (items : List Value) (listType type : DataType) :
    i.sense (.call .isIn [operand, .constant (.list items) listType] type) = .test (sought i operand items) := by
  unfold sought
  rw [i.sense_mk, ← sense_composite i operand]
  simp only [Shape.map, List.map_cons, List.map_nil, i.sense_constant]
  rfl

theorem sense_given (scalar : operand.isComposite = false) (filled : items ≠ [])
    (flat : ∀ values, items ≠ [.list values]) (type : DataType) :
    i.sense (.call .isIn (operand :: items.map (literalLike operand)) type) = .test (sought i operand items) := by
  have among (a : A) : i.isAmong (i.sense operand) ((items.map (literalLike operand)).map i.sense) a =
      sought i operand items a := by
    unfold Interpretation.isAmong
    split
    -- Only one item that is a list could be taken for the list to seek in.
    · rename_i composite value values only
      obtain ⟨list, given, same⟩ := List.map_eq_singleton_iff.mp only
      have listed : list.items? = some values := by rw [← sense_items i, same]
      rw [given_items flat given] at listed
      cases listed
    · rw [List.map_map, List.map_map, sought, scalar]
      refine congrArg Truth.any (List.map_congr_left fun item _ => ?_)
      exact congrArg (i.equal _) (congrFun (sense_literalLike i operand item) a)
  obtain ⟨item, rest, rfl⟩ := List.exists_cons_of_ne_nil filled
  rw [i.sense_mk]
  exact congrArg Sense.test (funext among)

theorem sense_equalsItem (composite : components? operand = some parts) (item : Value) :
    ∀ n ∈ equalsItem? parts item,
      i.sense n = .test fun a => i.equalItem operand.isComposite ((i.sense operand).value a) item := by
  intro n member
  have whole : operand.isComposite = true := by rw [← components_isSome, composite, Option.isSome_some]
  unfold equalsItem? at member
  split at member
  · rename_i values
    split at member
    · rename_i even
      rw [← List.map_uncurry_zip_eq_zipWith] at member
      rw [i.sense_joinAll (rfl : BinaryOp.and.isLogical = true) (fun pair _ => i.sense_equal _ _) n member]
      refine congrArg Sense.test (funext fun a => ?_)
      -- The comparisons are of the parts with the values, so the tuples are compared place by place.
      have paired : (parts.zip values).map (fun pair => i.equal ((i.sense pair.1).value a) pair.2) =
          List.zipWith i.equal (parts.map fun part => (i.sense part).value a) values := by
        rw [List.zipWith_map_left, ← List.map_uncurry_zip_eq_zipWith]
        rfl
      rw [whole, sense_parts i composite, Interpretation.equalItem, if_pos rfl]
      simp only [even, List.length_map, if_true, sense_literalLike, paired]
      rfl
    · cases member
  · cases member

theorem sense_membership (flat : operand.isComposite = false → ∀ values, items ≠ [.list values]) :
    ∀ n ∈ membership? operand items, i.sense n = .test (sought i operand items) := by
  intro n member
  rcases eq_or_ne items [] with rfl | filled
  · obtain rfl : .literal (.bool false) = n := Option.some.inj member
    exact i.sense_bool false
  cases composite : components? operand with
  | none =>
    have scalar := components_none.mp composite
    rw [membership_scalar composite filled] at member
    obtain rfl := Option.some.inj member
    exact sense_given i scalar filled (flat scalar) _
  | some parts =>
    rw [membership_composite composite filled] at member
    obtain ⟨tests, mapped, joined⟩ := Option.bind_eq_some_iff.mp member
    have each (test : Node) (inside : test ∈ tests) : i.sense test = .test (i.sense test).truth := by
      obtain ⟨item, -, made⟩ := exists_of_mapM mapped test inside
      exact Sense.test_truth (sense_equalsItem i composite item test made)
    -- Each test stands for its item, in the order of the items.
    rw [← List.map_id tests] at joined
    rw [i.sense_joinAll (rfl : BinaryOp.or.isLogical = true) each n joined]
    refine congrArg Sense.test (funext fun a => congrArg Truth.any (map_of_mapM mapped fun item _ test made => ?_))
    rw [sense_equalsItem i composite item test made, Sense.truth_test]

theorem sense_expandMembership {n : Node} (flat : n.nests = false) : i.sense (expandMembership n) = i.sense n := by
  obtain still | ⟨operand, items, listType, type, rfl, m, found, made⟩ := expandMembership_cases n
  · rw [still]
  · rw [made, sense_isIn, sense_membership i (Node.flat_items flat) m found]

/-- Where no scalar is sought in a list of one list, a tree means what it did. -/
theorem membership_sense {n : Node} (flat : n.NestsNone) : i.sense (membership.transform n) = i.sense n := by
  apply i.sense_mapUp
  intro s member
  -- The layer that is expanded has expanded children, which are lists and composites where the given ones are.
  apply sense_expandMembership
  rw [← flat _ member]
  exact membership_nests s

end Meaning

/-! ### Expanding again -/

/-- There is nothing to expand. -/
def Expanded (n : Node) : Prop := ∀ m ∈ n.subtrees, expandMembership m = m

theorem expanded_mk {s : Shape Node} :
    Expanded (.mk s) ↔ expandMembership (.mk s) = .mk s ∧ ∀ c ∈ s.children, Expanded c := by
  simp only [Expanded, Node.subtrees_mk, List.forall_mem_cons, List.forall_mem_flatMap]

theorem expanded_literal (n : Node) (value : Value) : Expanded (literalLike n value) := by
  obtain ⟨type, same⟩ := literalLike_eq n value
  rw [same]
  exact expanded_mk.mpr ⟨rfl, by simp [Shape.children]⟩

theorem expanded_binary {op : BinaryOp} {left right : Node} (first : Expanded left) (second : Expanded right) :
    Expanded (.ofBinary op left right) :=
  expanded_mk.mpr ⟨rfl, by simp [Shape.children, first, second]⟩

theorem membership_expanded (expanded : Expanded operand)
    (flat : operand.isComposite = false → ∀ values, items ≠ [.list values]) :
    ∀ n ∈ membership? operand items, Expanded n := by
  refine membership_holds (V := fun _ => True) (expanded_literal (.literal .null) _) (fun parts found part inside => ?_)
    (fun _ _ _ _ => trivial) (fun part _ => expanded_binary part (expanded_literal _ _))
    (fun _ first second => expanded_binary first second) fun scalar => ?_
  · obtain ⟨s, rfl, -, rfl⟩ := components_some found
    exact (expanded_mk.mp expanded).2 part inside
  · have literals : ∀ n ∈ items.map (literalLike operand), Expanded n :=
      List.forall_mem_map.mpr fun value _ => expanded_literal operand value
    refine expanded_mk.mpr ⟨?_, List.forall_mem_cons.mpr ⟨expanded, literals⟩⟩
    obtain still | ⟨operand, values, listType, type, same, -⟩ := expandMembership_cases
      (.call .isIn (operand :: items.map (literalLike operand)) .boolean)
    · exact still
    · injection same with same
      injection same with _ same _
      have listed := given_items (flat (components_none.mp scalar)) (List.tail_eq_of_cons_eq same)
      cases listed

theorem expandMembership_expanded {s : Shape Node} (flat : (Node.mk s).nests = false)
    (below : ∀ c ∈ s.children, Expanded c) : Expanded (expandMembership (.mk s)) := by
  obtain still | ⟨operand, items, listType, type, same, m, found, made⟩ := expandMembership_cases (.mk s)
  · rw [still]
    exact expanded_mk.mpr ⟨still, below⟩
  · cases same
    rw [made]
    exact membership_expanded (below operand (by simp [Shape.children])) (Node.flat_items flat) m found

theorem membership_transform_expanded {n : Node} (flat : n.NestsNone) : Expanded (membership.transform n) := by
  induction n using Node.inductNode with
  | step s ih =>
    rw [membership_mk]
    apply expandMembership_expanded
    · rw [membership_nests]
      exact flat _ (Node.self_mem_subtrees _)
    · intro c child
      rw [Shape.children_map] at child
      obtain ⟨before, inside, rfl⟩ := List.mem_map.mp child
      exact ih before inside fun m member => flat m (Node.mem_subtrees_of_child inside member)

/-- Where no scalar is sought in a list of one list, expanding again changes nothing. -/
theorem membership_idempotent {n : Node} (flat : n.NestsNone) :
    membership.transform (membership.transform n) = membership.transform n :=
  Node.mapUp_still (membership_transform_expanded flat)

/-! ### A list in a list -/

/-- A list that is the only item is given to be sought in. -/
theorem nested_list_given {operand : Node} (scalar : operand.isComposite = false) (values : List Value)
    (listType type : DataType) :
    expandMembership (.call .isIn [operand, .constant (.list [.list values]) listType] type) =
      .call .isIn [operand, literalLike operand (.list values)] .boolean := by
  rw [expandMembership, membership_scalar (components_none.mpr scalar) (List.cons_ne_nil _ _), Option.getD_some]
  rfl

theorem nested_list_changes :
    let x : Node := .column { label := "a", name := "x", type := .unknown }
    let test : Node := .call .isIn [x, .literal (.list [.list [.int32 1, .int32 2]])] .boolean
    let one : Interpretation Unit :=
      { equals := fun v w => some (decide (v = w)), equalsUneven := fun _ _ => none, layer := fun _ _ => .int32 1 }
    (one.sense test).truth () = some false ∧ (one.sense (membership.transform test)).truth () = some true ∧
      membership.transform (membership.transform test) ≠ membership.transform test := by
  decide +kernel

end Pass

end QueryTree
