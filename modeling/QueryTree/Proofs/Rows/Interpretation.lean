import QueryTree.Pass.Membership
import QueryTree.Proofs.Rows.Outcome

/-! What trees mean where most of it is left open.

A tree has a value under every assignment. Comparisons for equality, connectives, null tests and memberships have one
of three truth values, and a composite has those of its parts. How values compare that are not null, and what any other
layer comes to, is up to an interpretation. What an assignment is, is open as well: a row, or all that a query is given
from outside.
-/

set_option autoImplicit false

namespace QueryTree

/-! ### Many truth values -/

namespace Truth

/-- False is decided by any of them. -/
def all (ts : List (Option Bool)) : Option Bool := ts.foldr both (some true)

/-- True is decided by any of them. -/
def any (ts : List (Option Bool)) : Option Bool := ts.foldr either (some false)

def joined (op : BinaryOp) (ts : List (Option Bool)) : Option Bool := if op = .or then any ts else all ts

theorem both_assoc (a b c : Option Bool) : both (both a b) c = both a (both b c) := by
  rcases a with _ | _ | _ <;> rcases b with _ | _ | _ <;> rcases c with _ | _ | _ <;> rfl

theorem either_assoc (a b c : Option Bool) : either (either a b) c = either a (either b c) := by
  rcases a with _ | _ | _ <;> rcases b with _ | _ | _ <;> rcases c with _ | _ | _ <;> rfl

theorem connect_assoc (op : BinaryOp) (a b c : Option Bool) :
    connect op (connect op a b) c = connect op a (connect op b c) := by
  unfold connect
  split
  · exact either_assoc a b c
  · exact both_assoc a b c

theorem both_given (a : Option Bool) : both a (some true) = a := by rcases a with _ | _ | _ <;> rfl

theorem either_refused (a : Option Bool) : either a (some false) = a := by rcases a with _ | _ | _ <;> rfl

theorem joined_nil (op : BinaryOp) (a : Option Bool) : connect op a (joined op []) = a := by
  unfold connect joined
  split
  · exact either_refused a
  · exact both_given a

theorem joined_cons (op : BinaryOp) (a : Option Bool) (rest : List (Option Bool)) :
    joined op (a :: rest) = connect op a (joined op rest) := by
  unfold connect joined
  split <;> rfl

theorem foldl_connect (op : BinaryOp) (a : Option Bool) (rest : List (Option Bool)) :
    rest.foldl (connect op) a = joined op (a :: rest) := by
  rw [joined_cons]
  induction rest generalizing a with
  | nil => exact (joined_nil op a).symm
  | cons b rest ih => rw [List.foldl_cons, ih, connect_assoc, joined_cons]

theorem any_not (ts : List (Option Bool)) : any (ts.map (·.map not)) = (all ts).map not := by
  induction ts with
  | nil => rfl
  | cons a rest ih =>
    have step : any ((a :: rest).map (·.map not)) = either (a.map not) ((all rest).map not) := congrArg (either _) ih
    rw [step, show all (a :: rest) = both a (all rest) from rfl]
    rcases a with _ | _ | _ <;> rcases all rest with _ | _ | _ <;> rfl

end Truth

/-! ### Interpretations -/

/-- What a tree is to the layer it stands in. -/
structure Sense (A : Type) where
  value : A → Value
  /-- Is compared with an item part by part. -/
  composite : Bool := false
  /-- What a literal list lists. -/
  items? : Option (List Value) := none

namespace Sense

variable {A : Type}

def truth (s : Sense A) (a : A) : Option Bool := (s.value a).bool?

def test (truth : A → Option Bool) : Sense A := { value := fun a => Truth.value (truth a) }

@[simp] theorem truth_test (t : A → Option Bool) (a : A) : (test t).truth a = t a := Truth.bool_value (t a)

theorem truth_eq {s : Sense A} {t : A → Option Bool} (same : s = test t) : s.truth = t :=
  same ▸ funext (truth_test t)

theorem test_truth {s : Sense A} {t : A → Option Bool} (same : s = test t) : s = test s.truth := by
  rw [truth_eq same, same]

end Sense

namespace Shape

def isComposite {α : Type} : Shape α → Bool
  | .tuple _ | .object .. => true
  | _ => false

def items? {α : Type} : Shape α → Option (List Value)
  | .constant (.list items) _ => some items
  | _ => none

theorem isComposite_map {α β : Type} (f : α → β) (s : Shape α) : (s.map f).isComposite = s.isComposite := by
  cases s <;> rfl

theorem items_map {α β : Type} (f : α → β) (s : Shape α) : (s.map f).items? = s.items? := by
  cases s with
  | constant value type => cases value <;> rfl
  | _ => rfl

end Shape

structure Interpretation (A : Type) where
  /-- Of values that are not null. Nothing where it is unknown. -/
  equals : Value → Value → Option Bool
  /-- Whether a composite is an item that has not as many parts. -/
  equalsUneven : Value → Value → Option Bool
  /-- Layers that are no literals, composites or tests of this kind. -/
  layer : Shape (A → Value) → A → Value

namespace Interpretation

variable {A : Type} (i : Interpretation A)

def equal (x y : Value) : Option Bool := if x.isNull || y.isNull then none else i.equals x y

def equalItem (composite : Bool) (x item : Value) : Option Bool :=
  if composite then
    match x, item with
    | .list parts, .list values =>
      if values.length = parts.length then Truth.all (List.zipWith i.equal parts values) else i.equalsUneven x item
    | x, item => i.equalsUneven x item
  else i.equal x item

/-- Whether `x` is one of the items. A literal list that is the only item stands for what it lists. -/
def isAmong (x : Sense A) (items : List (Sense A)) (a : A) : Option Bool :=
  match items with
  | [{ items? := some values, .. }] => Truth.any (values.map (i.equalItem x.composite (x.value a)))
  | items => Truth.any (items.map fun item => i.equal (x.value a) (item.value a))

def value : Shape (Sense A) → A → Value
  | .constant value _, _ => value
  | .tuple elements, a => .list (elements.map (·.value a))
  | .object _ keys, a => .list (keys.map (·.expr.value a))
  | .binary .eq left right _, a => Truth.value (i.equal (left.value a) (right.value a))
  | .binary .notEq left right _, a => Truth.value ((i.equal (left.value a) (right.value a)).map not)
  | .binary .and left right _, a => Truth.value (Truth.both (left.truth a) (right.truth a))
  | .binary .or left right _, a => Truth.value (Truth.either (left.truth a) (right.truth a))
  | .unary .isNull operand _, a => .bool (operand.value a).isNull
  | .unary .isNotNull operand _, a => .bool !(operand.value a).isNull
  | .call .isIn (x :: item :: items) _, a => Truth.value (i.isAmong x (item :: items) a)
  | s, a => i.layer (s.map (·.value)) a

def step (s : Shape (Sense A)) : Sense A := { value := i.value s, composite := s.isComposite, items? := s.items? }

def sense : Node → Sense A := Node.fold i.step

theorem sense_mk (s : Shape Node) : i.sense (.mk s) = i.step (s.map i.sense) := Node.fold_mk _ _

/-- A rule that leaves what every node means leaves what the tree means. -/
theorem sense_mapUp {rule : Node → Node} {n : Node}
    (kept : ∀ s : Shape Node, .mk s ∈ n.subtrees →
      i.sense (rule (.mk (s.map (Node.mapUp rule)))) = i.sense (.mk (s.map (Node.mapUp rule)))) :
    i.sense (n.mapUp rule) = i.sense n := by
  induction n using Node.inductNode with
  | step s ih =>
    rw [Node.mapUp_mk, kept s (Node.self_mem_subtrees _), sense_mk, sense_mk, Shape.map_map]
    exact congrArg i.step (Shape.map_congr fun c child => ih c child fun t below =>
      kept t (Node.mem_subtrees_of_child child below))

/-! ### Tests -/

variable {l r : Node} {x y : Value} {t u : A → Option Bool}

theorem sense_constant (value : Value) (type : DataType) :
    i.sense (.constant value type) =
      { value := fun _ => value, items? := (Shape.constant value type : Shape Node).items? } := by
  rw [sense_mk]
  cases value <;> rfl

theorem sense_bool (b : Bool) : i.sense (.literal (.bool b)) = .test fun _ => some b := by
  rw [Node.literal, sense_constant]
  rfl

theorem sense_equal (l r : Node) :
    i.sense (.equal l r) = .test fun a => i.equal ((i.sense l).value a) ((i.sense r).value a) := i.sense_mk _

theorem sense_notEqual (l r : Node) : i.sense (.ofBinary .notEq l r) =
    .test fun a => (i.equal ((i.sense l).value a) ((i.sense r).value a)).map not := i.sense_mk _

theorem sense_isNull (n : Node) :
    i.sense (.ofUnary .isNull n) = .test fun a => some ((i.sense n).value a).isNull := i.sense_mk _

theorem sense_isNotNull (n : Node) :
    i.sense (.ofUnary .isNotNull n) = .test fun a => some !((i.sense n).value a).isNull := i.sense_mk _

theorem sense_connective {op : BinaryOp} (logical : op.isLogical = true) (left : i.sense l = .test t)
    (right : i.sense r = .test u) : i.sense (.ofBinary op l r) = .test fun a => Truth.connect op (t a) (u a) := by
  have truths : i.sense (.ofBinary op l r) =
      .test fun a => Truth.connect op ((i.sense l).truth a) ((i.sense r).truth a) := by
    cases op <;> first | exact i.sense_mk _ | cases logical
  rw [truths, left, right]
  simp only [Sense.truth_test]

theorem sense_joinAll {α : Type} {op : BinaryOp} (logical : op.isLogical = true) {items : List α} {test : α → Node}
    {truth : α → A → Option Bool} (each : ∀ item ∈ items, i.sense (test item) = .test (truth item)) :
    ∀ n ∈ Node.joinAll op (items.map test), i.sense n = .test fun a => Truth.joined op (items.map (truth · a)) := by
  intro n member
  cases items with
  | nil => cases member
  | cons first rest =>
    obtain rfl : (rest.map test).foldl (.ofBinary op) (test first) = n := Option.some.inj member
    -- The chain grows at its end, so what it starts with is any test.
    have joined {n : Node} {t : A → Option Bool} (start : i.sense n = .test t)
        (later : ∀ item ∈ rest, i.sense (test item) = .test (truth item)) :
        i.sense ((rest.map test).foldl (.ofBinary op) n) =
          .test fun a => (rest.map (truth · a)).foldl (Truth.connect op) (t a) := by
      clear each member
      induction rest generalizing n t with
      | nil => exact start
      | cons item rest ih =>
        rw [List.map_cons, List.foldl_cons]
        refine ih (i.sense_connective logical start (later item List.mem_cons_self)) fun other member => ?_
        exact later other (List.mem_cons_of_mem _ member)
    rw [joined (each first List.mem_cons_self) fun item member => each item (List.mem_cons_of_mem _ member)]
    simp only [Truth.foldl_connect]
    rfl

end Interpretation

end QueryTree
