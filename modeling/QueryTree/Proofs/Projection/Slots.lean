import QueryTree.Proofs.Session.PlanCache

/-! A projector reads what its projection describes.

A projector was compiled from a projection that may have other literals and nested queries than the one it is run for.
What it is run for has a meaning of its own, which knows no numbers: each part reads the row, its own literal or its
own query. Compiling numbers literals and queries in the order in which `values` lists them, so a step that was
compiled from some count on finds its own among the values from that count on.
-/

set_option autoImplicit false

namespace QueryTree

/-! ### The meaning of a projection -/

namespace Select

/-- How many columns are declared before the first of a name. -/
def columnsBefore (q : Select Node) (name : String) : Nat := (q.columns.takeWhile fun b => b.name ≠ name).length

variable {q : Select Node} {name : String}

/-- It is the least ordinal at which a column of that name is declared. -/
theorem columnsBefore_least (declared : name ∈ q.columns.map (·.name)) :
    (q.columns.map (·.name))[q.columnsBefore name]? = some name ∧
      ∀ ordinal < q.columnsBefore name, (q.columns.map (·.name))[ordinal]? ≠ some name := by
  unfold columnsBefore
  generalize q.columns = columns at declared
  induction columns with
  | nil => cases declared
  | cons b rest ih =>
    by_cases first : b.name = name
    · simp [first]
    · have later : name ∈ rest.map (·.name) := by simpa [Ne.symm first] using declared
      obtain ⟨here, before⟩ := ih later
      rw [List.takeWhile_cons_of_pos (by simpa using first)]
      refine ⟨by simpa using here, fun ordinal less => ?_⟩
      cases ordinal with
      | zero => simpa using first
      | succ ordinal => simpa using before ordinal (by simpa using less)

theorem columnIndex?_eq : q.columnIndex? name =
    if name ∈ q.columns.map (·.name) then some (q.columnsBefore name) else none := by
  unfold columnIndex? columnsBefore
  induction q.columns with
  | nil => rfl
  | cons b rest ih =>
    by_cases first : b.name = name
    · simp [List.findIdx?_cons, first]
    · rw [List.findIdx?_cons, ih, List.takeWhile_cons_of_pos (by simpa using first)]
      by_cases later : name ∈ rest.map (·.name)
      · simp [first, later]
      · simp [first, Ne.symm first, later]

theorem projectsStar_iff : q.projectsStar = true ↔ q.columns = [] ∨ Node.wildcard ∈ q.columns.map (·.name) := by
  simp [projectsStar, Binding.isWildcard]

end Select

namespace Row

/-- A cell of a row of the query `root`. A column is read where the first of its name is declared, or where the row has
the first of its name if all columns of the source are passed on. -/
def cell (root : Node) (r : Row) (name : String) : Except QueryError Value :=
  match root.select? with
  | none => .error (.compile (.invalidNode ("column " ++ name ++ " projected from a non-query statement")))
  | some q =>
    if q.columns = [] ∨ Node.wildcard ∈ q.columns.map (·.name) then
      ((r.columns.zip r.values).lookup name).elim (.error (.projection ("row has no column named " ++ name))) .ok
    else if name ∈ q.columns.map (·.name) then
      r.values[q.columnsBefore name]?.elim (.error (.projection ("row has " ++ toString r.values.length ++
        " columns, projector reads column " ++ toString (q.columnsBefore name)))) .ok
    else .error (.compile (.unresolvedColumn name))

variable {r : Row}

theorem named?_eq (name : String) : r.named? name = (r.columns.zip r.values).lookup name := by
  obtain ⟨columns, values⟩ := r
  show (columns.findIdx? (· == name)).bind (fun place => values[place]?) = _
  induction columns generalizing values with
  | nil => rfl
  | cons c columns ih =>
    cases values with
    | nil => simp
    | cons v values =>
      have later := ih values
      rw [List.findIdx?_cons, List.zip_cons_cons, List.lookup_cons]
      by_cases first : c = name
      · simp [first]
      · rw [if_neg (by simpa using first), beq_eq_false_iff_ne.mpr (Ne.symm first), Option.bind_map]
        exact later

theorem named_eq (name : String) : r.named name =
    ((r.columns.zip r.values).lookup name).elim (.error (.projection ("row has no column named " ++ name))) .ok := by
  rw [← named?_eq, named]
  cases r.named? name <;> rfl

theorem place_eq (ordinal : Nat) : r.place ordinal = r.values[ordinal]?.elim (.error (.projection
    ("row has " ++ toString r.values.length ++ " columns, projector reads column " ++ toString ordinal))) .ok := by
  rw [place]
  cases r.values[ordinal]? <;> rfl

end Row

namespace Projection

section Interpret

variable {m : Type → Type} [Monad m] (root : Node) (arguments : List Value) (construct : Factory)
  (run : BoundQuery → ExceptT QueryError m (List Materialized)) (r : Row)

mutual

/-- The result of a row, with literals and nested queries where they stand. -/
def interpret : Projection → ExceptT QueryError m Materialized
  | .column name type => ExceptT.mk (pure ((r.cell root name >>= Value.readAs type).map .value))
  | .constant value => pure (.value value)
  | .argument index => ExceptT.mk (pure (match arguments[index]? with
    | some value => .ok (.value value)
    | none => .error (.projection ("no argument " ++ toString index ++ " for projection"))))
  | .entity name fields => return construct name (← interpretFields fields)
  | .tuple items => return .tuple (← interpretList items)
  | .nested query correlations => do
    let given ← interpretCorrelations correlations
    return .list (← run (query.withParameters given))

def interpretList : List Projection → ExceptT QueryError m (List Materialized)
  | [] => pure []
  | p :: rest => return (← interpret p) :: (← interpretList rest)

def interpretFields : List (Binding Projection) → ExceptT QueryError m (List (String × Materialized))
  | [] => pure []
  | ⟨name, p⟩ :: rest => return (name, ← interpret p) :: (← interpretFields rest)

def interpretCorrelations : List (Binding Projection) → ExceptT QueryError m (List (String × Value))
  | [] => pure []
  | ⟨name, p⟩ :: rest => do
    let value ← ExceptT.mk (pure ((← interpret p).asParameter name))
    return (name, value) :: (← interpretCorrelations rest)

end

end Interpret

end Projection

/-! ### The numbers of a step -/

/-- Numbers of literals and of nested queries, in the order in which they are asked for. -/
structure SlotNumbers where
  constants : List Nat := []
  nested : List Nat := []
  deriving DecidableEq

def SlotNumbers.append (a b : SlotNumbers) : SlotNumbers :=
  { constants := a.constants ++ b.constants, nested := a.nested ++ b.nested }

namespace Step

mutual

def numbers : Step → SlotNumbers
  | .row | .place .. | .named .. | .argument _ => {}
  | .constant number => { constants := [number] }
  | .entity _ fields => numbersOfBindings fields
  | .tuple items => numbersOfList items
  | .nested number correlations => SlotNumbers.append { nested := [number] } (numbersOfBindings correlations)

def numbersOfList : List Step → SlotNumbers
  | [] => {}
  | step :: rest => (numbers step).append (numbersOfList rest)

def numbersOfBindings : List (Binding Step) → SlotNumbers
  | [] => {}
  | ⟨_, step⟩ :: rest => (numbers step).append (numbersOfBindings rest)

end

end Step

namespace SlotCounts

/-- The count behind the values of a part that begins at `start`. -/
def past (start : SlotCounts) (part : ProjectionValues) : SlotCounts :=
  { constants := start.constants + part.constants.length, nested := start.nested + part.nested.length }

/-- The numbers that such a part has. -/
def numbers (start : SlotCounts) (part : ProjectionValues) : SlotNumbers :=
  { constants := List.range' start.constants part.constants.length
    nested := List.range' start.nested part.nested.length }

variable (start : SlotCounts) (a b : ProjectionValues)

theorem past_append : start.past (a.append b) = (start.past a).past b := by
  simp [past, ProjectionValues.append, Nat.add_assoc]

theorem numbers_append : start.numbers (a.append b) = (start.numbers a).append ((start.past a).numbers b) := by
  simp [numbers, past, ProjectionValues.append, SlotNumbers.append, List.range'_append_1]

end SlotCounts

namespace ProjectionValues

/-- From `start` on the values are those of the part, whatever comes after them. -/
structure Holds (values : ProjectionValues) (start : SlotCounts) (part : ProjectionValues) : Prop where
  constants : part.constants <+: values.constants.drop start.constants
  nested : part.nested <+: values.nested.drop start.nested

theorem prefix_split {α : Type} {a b l : List α} {n : Nat} (whole : a ++ b <+: l.drop n) :
    a <+: l.drop n ∧ b <+: l.drop (n + a.length) := by
  obtain ⟨rest, same⟩ := whole
  refine ⟨⟨b ++ rest, by rw [← same, List.append_assoc]⟩, ⟨rest, ?_⟩⟩
  rw [← List.drop_drop, ← same, List.append_assoc, List.drop_left]

theorem Holds.split {values a b : ProjectionValues} {start : SlotCounts} (holds : values.Holds start (a.append b)) :
    values.Holds start a ∧ values.Holds (start.past a) b := by
  obtain ⟨constants, constants'⟩ := prefix_split holds.constants
  obtain ⟨nested, nested'⟩ := prefix_split holds.nested
  exact ⟨⟨constants, nested⟩, ⟨constants', nested'⟩⟩

theorem Holds.refl (values : ProjectionValues) : values.Holds {} values := ⟨List.prefix_rfl, List.prefix_rfl⟩

theorem getElem_of_prefix {α : Type} {a : α} {l : List α} {n : Nat} (first : [a] <+: l.drop n) : l[n]? = some a := by
  obtain ⟨rest, same⟩ := first
  rw [← Nat.add_zero n, ← List.getElem?_drop, ← same]
  rfl

end ProjectionValues

/-! ### Compiling numbers the values in order -/

namespace Projector

variable {α β : Type} {query : Option (Select Node)} {start after : SlotCounts}

theorem bind_ok {x : Compile α} {f : α → Compile β} {b : β} : (x >>= f) start = .ok (b, after) ↔
    ∃ a middle, x start = .ok (a, middle) ∧ f a middle = .ok (b, after) := by
  show (x start).bind (fun p => f p.1 p.2) = _ ↔ _
  cases x start with
  | error e => simp [Except.bind]
  | ok p => simp [Except.bind, Prod.ext_iff]

theorem pure_ok {a b : α} : (pure a : Compile α) start = .ok (b, after) ↔ a = b ∧ start = after := by
  show Except.ok (a, start) = _ ↔ _
  simp

theorem column_numbers {name : String} {type : DataType} {st : Step} (compiled : column query name type = .ok st) :
    st.numbers = {} := by
  unfold column at compiled
  repeat' split at compiled
  all_goals cases compiled <;> rfl

/-- A step that was compiled from `start` on numbers the values of its part from there on. -/
structure Aligned (start after : SlotCounts) (part : ProjectionValues) (numbers : SlotNumbers) : Prop where
  after : after = start.past part
  numbers : numbers = start.numbers part

theorem Aligned.nothing : Aligned start start {} {} := ⟨rfl, rfl⟩

theorem Aligned.append {middle : SlotCounts} {a b : ProjectionValues} {m n : SlotNumbers}
    (first : Aligned start middle a m) (second : Aligned middle after b n) :
    Aligned start after (a.append b) (m.append n) := by
  obtain ⟨rfl, rfl⟩ := first
  obtain ⟨rfl, rfl⟩ := second
  exact ⟨(start.past_append a b).symm, (start.numbers_append a b).symm⟩

mutual

theorem step_aligned : ∀ {p : Projection} {start after : SlotCounts} {st : Step},
    step query p start = .ok (st, after) → Aligned start after p.values st.numbers
  | .column name type, start, after, st, compiled => by
    have compiled : (column query name type).bind (fun a => .ok (a, start)) = .ok (st, after) := compiled
    cases found : column query name type with
    | error e => rw [found] at compiled; cases compiled
    | ok st' =>
      rw [found] at compiled
      cases compiled
      rw [column_numbers found]
      exact .nothing
  | .constant value, start, after, st, compiled => by
    cases compiled
    exact ⟨rfl, rfl⟩
  | .argument index, start, after, st, compiled => by
    obtain ⟨rfl, rfl⟩ := pure_ok.mp compiled
    exact .nothing
  | .entity name fields, start, after, st, compiled => by
    obtain ⟨steps, middle, inside, rest⟩ := bind_ok.mp compiled
    obtain ⟨rfl, rfl⟩ := pure_ok.mp rest
    exact stepBindings_aligned inside
  | .tuple items, start, after, st, compiled => by
    obtain ⟨steps, middle, inside, rest⟩ := bind_ok.mp compiled
    obtain ⟨rfl, rfl⟩ := pure_ok.mp rest
    exact stepList_aligned inside
  | .nested _ correlations, start, after, st, compiled => by
    have compiled : (stepBindings query correlations >>= fun steps => pure (Step.nested start.nested steps))
        { start with nested := start.nested + 1 } = .ok (st, after) := compiled
    obtain ⟨steps, middle, inside, rest⟩ := bind_ok.mp compiled
    obtain ⟨rfl, rfl⟩ := pure_ok.mp rest
    exact Aligned.append ⟨rfl, rfl⟩ (stepBindings_aligned inside)

theorem stepList_aligned : ∀ {ps : List Projection} {start after : SlotCounts} {steps : List Step},
    stepList query ps start = .ok (steps, after) →
      Aligned start after (Projection.valuesOfList ps) (Step.numbersOfList steps)
  | [], start, after, steps, compiled => by
    obtain ⟨rfl, rfl⟩ := pure_ok.mp compiled
    exact .nothing
  | p :: ps, start, after, steps, compiled => by
    obtain ⟨st, middle, here, rest⟩ := bind_ok.mp compiled
    obtain ⟨steps, last, there, rest⟩ := bind_ok.mp rest
    obtain ⟨rfl, rfl⟩ := pure_ok.mp rest
    exact (step_aligned here).append (stepList_aligned there)

theorem stepBindings_aligned : ∀ {ps : List (Binding Projection)} {start after : SlotCounts}
    {steps : List (Binding Step)}, stepBindings query ps start = .ok (steps, after) →
      Aligned start after (Projection.valuesOfBindings ps) (Step.numbersOfBindings steps)
  | [], start, after, steps, compiled => by
    obtain ⟨rfl, rfl⟩ := pure_ok.mp compiled
    exact .nothing
  | ⟨name, p⟩ :: ps, start, after, steps, compiled => by
    obtain ⟨st, middle, here, rest⟩ := bind_ok.mp compiled
    obtain ⟨steps, last, there, rest⟩ := bind_ok.mp rest
    obtain ⟨rfl, rfl⟩ := pure_ok.mp rest
    exact (step_aligned here).append (stepBindings_aligned there)

end

end Projector

/-! ### Steps read what their parts say -/

namespace Projector

variable {m : Type → Type} {s : Surroundings m}

theorem constant_reads {value : Value} {start : SlotCounts} (holds : s.values.Holds start { constants := [value] }) :
    s.constant start.constants = .ok value := by
  rw [Surroundings.constant, ProjectionValues.getElem_of_prefix holds.constants]

theorem nested_reads {query : BoundQuery} {start : SlotCounts} (holds : s.values.Holds start { nested := [query] }) :
    s.nested start.nested = .ok query := by
  rw [Surroundings.nested, ProjectionValues.getElem_of_prefix holds.nested]

end Projector

section Reads

variable {m : Type → Type} [Monad m] {root : Node} (s : Surroundings m) (r : Row)

/-- The result of a part, as the surroundings of a step give it. -/
abbrev Surroundings.reads (root : Node) (r : Row) (p : Projection) : ExceptT QueryError m Materialized :=
  p.interpret root s.arguments s.construct s.run r

namespace Projector

variable {s r}

theorem column_reads {name : String} {type : DataType} {st : Step} (compiled : column root.select? name type = .ok st) :
    st.eval s r = s.reads root r (.column name type) := by
  unfold column at compiled
  rw [Surroundings.reads, Projection.interpret, Row.cell]
  generalize root.select? = query at compiled ⊢
  cases query with
  | none => cases compiled
  | some q =>
    dsimp only at compiled ⊢
    -- Under a star root the place is only known from the row, otherwise it is known when the projector is made.
    by_cases star : q.projectsStar = true
    · rw [if_pos star] at compiled
      rw [if_pos (Select.projectsStar_iff.mp star), ← Row.named_eq]
      cases compiled
      rfl
    · rw [if_neg star, Select.columnIndex?_eq] at compiled
      rw [if_neg fun all => star (Select.projectsStar_iff.mpr all)]
      by_cases declared : name ∈ q.columns.map (·.name)
      · rw [if_pos declared] at compiled ⊢
        rw [← Row.place_eq]
        cases compiled
        rfl
      · rw [if_neg declared] at compiled
        cases compiled

mutual

/-- Where its values are those of the projection, a step has the result of the projection. -/
theorem step_reads [LawfulMonad m] : ∀ {p : Projection} {start after : SlotCounts} {st : Step},
    step root.select? p start = .ok (st, after) → s.values.Holds start p.values → st.eval s r = s.reads root r p
  | .column name type, start, after, st, compiled, _ => by
    have compiled : (column root.select? name type).bind (fun a => .ok (a, start)) = .ok (st, after) := compiled
    cases found : column root.select? name type with
    | error e => rw [found] at compiled; cases compiled
    | ok st' =>
      rw [found] at compiled
      cases compiled
      exact column_reads found
  | .constant value, start, after, st, compiled, holds => by
    cases compiled
    rw [Step.eval, constant_reads holds, Surroundings.reads, Projection.interpret]
    rfl
  | .argument index, start, after, st, compiled, _ => by
    obtain ⟨rfl, rfl⟩ := pure_ok.mp compiled
    rw [Step.eval, Surroundings.reads, Projection.interpret, Surroundings.argument]
    cases s.arguments[index]? <;> rfl
  | .entity name fields, start, after, st, compiled, holds => by
    obtain ⟨steps, middle, inside, rest⟩ := bind_ok.mp compiled
    obtain ⟨rfl, rfl⟩ := pure_ok.mp rest
    rw [Step.eval, Surroundings.reads, Projection.interpret, stepFields_read inside holds]
  | .tuple items, start, after, st, compiled, holds => by
    obtain ⟨steps, middle, inside, rest⟩ := bind_ok.mp compiled
    obtain ⟨rfl, rfl⟩ := pure_ok.mp rest
    rw [Step.eval, Surroundings.reads, Projection.interpret, stepList_reads inside holds]
  | .nested query correlations, start, after, st, compiled, holds => by
    have compiled : (stepBindings root.select? correlations >>= fun steps => pure (Step.nested start.nested steps))
        { start with nested := start.nested + 1 } = .ok (st, after) := compiled
    obtain ⟨steps, middle, inside, rest⟩ := bind_ok.mp compiled
    obtain ⟨rfl, rfl⟩ := pure_ok.mp rest
    obtain ⟨own, correlated⟩ := ProjectionValues.Holds.split holds
    have found : (ExceptT.mk (pure (s.nested start.nested)) : ExceptT QueryError m BoundQuery) = pure query :=
      congrArg (fun found => ExceptT.mk (pure found)) (nested_reads own)
    rw [Step.eval, found, pure_bind, Surroundings.reads, Projection.interpret, stepCorrelations_read inside correlated]

theorem stepList_reads [LawfulMonad m] : ∀ {ps : List Projection} {start after : SlotCounts} {steps : List Step},
    stepList root.select? ps start = .ok (steps, after) → s.values.Holds start (Projection.valuesOfList ps) →
      Step.evalList s r steps = Projection.interpretList root s.arguments s.construct s.run r ps
  | [], start, after, steps, compiled, _ => by
    obtain ⟨rfl, rfl⟩ := pure_ok.mp compiled
    rw [Step.evalList, Projection.interpretList]
  | p :: ps, start, after, steps, compiled, holds => by
    obtain ⟨st, middle, here, rest⟩ := bind_ok.mp compiled
    obtain ⟨steps, last, there, rest⟩ := bind_ok.mp rest
    obtain ⟨rfl, rfl⟩ := pure_ok.mp rest
    obtain ⟨first, others⟩ := holds.split
    rw [← (step_aligned here).after] at others
    rw [Step.evalList, Projection.interpretList, step_reads here first, stepList_reads there others]

theorem stepFields_read [LawfulMonad m] : ∀ {ps : List (Binding Projection)} {start after : SlotCounts}
    {steps : List (Binding Step)},
    stepBindings root.select? ps start = .ok (steps, after) → s.values.Holds start (Projection.valuesOfBindings ps) →
      Step.evalFields s r steps = Projection.interpretFields root s.arguments s.construct s.run r ps
  | [], start, after, steps, compiled, _ => by
    obtain ⟨rfl, rfl⟩ := pure_ok.mp compiled
    rw [Step.evalFields, Projection.interpretFields]
  | ⟨name, p⟩ :: ps, start, after, steps, compiled, holds => by
    obtain ⟨st, middle, here, rest⟩ := bind_ok.mp compiled
    obtain ⟨steps, last, there, rest⟩ := bind_ok.mp rest
    obtain ⟨rfl, rfl⟩ := pure_ok.mp rest
    obtain ⟨first, others⟩ := holds.split
    rw [← (step_aligned here).after] at others
    rw [Step.evalFields, Projection.interpretFields, step_reads here first, stepFields_read there others]

theorem stepCorrelations_read [LawfulMonad m] : ∀ {ps : List (Binding Projection)} {start after : SlotCounts}
    {steps : List (Binding Step)}, stepBindings root.select? ps start = .ok (steps, after) →
      s.values.Holds start (Projection.valuesOfBindings ps) →
        Step.evalCorrelations s r steps = Projection.interpretCorrelations root s.arguments s.construct s.run r ps
  | [], start, after, steps, compiled, _ => by
    obtain ⟨rfl, rfl⟩ := pure_ok.mp compiled
    rw [Step.evalCorrelations, Projection.interpretCorrelations]
  | ⟨name, p⟩ :: ps, start, after, steps, compiled, holds => by
    obtain ⟨st, middle, here, rest⟩ := bind_ok.mp compiled
    obtain ⟨steps, last, there, rest⟩ := bind_ok.mp rest
    obtain ⟨rfl, rfl⟩ := pure_ok.mp rest
    obtain ⟨first, others⟩ := holds.split
    rw [← (step_aligned here).after] at others
    rw [Step.evalCorrelations, Projection.interpretCorrelations, step_reads here first,
      stepCorrelations_read there others]

end

end Projector

end Reads

namespace Projector

variable {p q : Projection} {root : Node} {projector : Projector}

end Projector

end QueryTree
