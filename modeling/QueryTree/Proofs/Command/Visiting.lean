import QueryTree.Command.Formatter
import QueryTree.Proofs.Command.Reading

/-! A walk over a tree writes its wording.

The formatter gives a slot its number when it comes to it, and a wording numbers its slots from left to right. A part
that is visited from some number on has the text of its wording with slots from that number on, and leaves the slots
of the wording behind those before. So the two are the same as long as parts are visited in the order of their texts.
-/

set_option autoImplicit false

namespace QueryTree

namespace Formatter

variable (f : Formatter) (l m : List Slot)

/-- What a spelling sees of the formatter. -/
def place : Place := { inline := f.inline, scope := f.scopes.head? }

def add : Formatter := { f with slots := f.slots ++ l }

@[simp] theorem add_slots : (f.add l).slots = f.slots ++ l := rfl

@[simp] theorem add_nil : f.add [] = f := by simp [add]

@[simp] theorem add_add : (f.add l).add m = f.add (l ++ m) := by simp [add]

end Formatter

namespace Wording

@[simp] theorem render_parenthesized (marker : Nat → String) (next : Nat) (w : Wording) :
    w.parenthesized.render marker next = parenthesize (w.render marker next) := by
  simp [parenthesized, parenthesize, String.append_assoc]

/-- Texts of wordings one behind the other, when the first slot has number `next`. -/
def renders (marker : Nat → String) : Nat → List Wording → List String
  | _, [] => []
  | next, w :: rest => w.render marker next :: renders marker (next + w.slots.length) rest

variable {marker : Nat → String}

@[simp] theorem renders_nil (next : Nat) : renders marker next [] = [] := rfl

@[simp] theorem renders_cons (next : Nat) (w : Wording) (ws : List Wording) :
    renders marker next (w :: ws) = w.render marker next :: renders marker (next + w.slots.length) ws := rfl

@[simp] theorem renders_append (next : Nat) (ws vs : List Wording) : renders marker next (ws ++ vs) =
    renders marker next ws ++ renders marker (next + (ws.flatMap slots).length) vs := by
  induction ws generalizing next with
  | nil => rfl
  | cons w ws ih => simp [ih, Nat.add_assoc]

@[simp] theorem renders_ofText (next : Nat) (texts : List String) :
    renders marker next (texts.map ofText) = texts := by
  induction texts with
  | nil => rfl
  | cons t texts ih => simpa using ih

@[simp] theorem slots_ofTexts (texts : List String) : (texts.map ofText).flatMap slots = [] := by
  simp [List.flatMap_map]

theorem render_joined (separator : String) (next : Nat) (ws : List Wording) :
    (joined separator ws).render marker next = separator.intercalate (renders marker next ws) := by
  induction ws generalizing next with
  | nil => simp [joined, render]
  | cons w ws ih =>
    cases ws with
    | nil => simp [joined]
    | cons v ws =>
      have rest : joined separator (w :: v :: ws) = w ++ ofText separator ++ joined separator (v :: ws) := rfl
      rw [rest, render_append, ih, render_append]
      simp only [renders_cons, String.intercalate_cons_cons, render_ofText, slots_append, slots_ofText, List.append_nil]

end Wording

/-! ### Visits and spellings -/

/-- From any number on, the answer is that of the spelling with its slots numbered from there, and these slots are
added. Errors are the same. -/
def Formatting.Numbers {α β : Type} (text : Nat → β → α) (slots : β → List Slot) (v : Formatting α)
    (s : Place → Except CompileError β) : Prop :=
  ∀ f : Formatter, v.run f = (fun b => (text f.slots.length b, f.add (slots b))) <$> s f.place

/-- A visit has the text of a wording. -/
def Visit.Writes (d : Dialect) (v : Visit) (s : Spelling) : Prop :=
  Formatting.Numbers (fun next w => w.render d.marker next) Wording.slots v s

/-- Visits one behind the other have the texts of wordings. -/
def Formatting.WritesAll (d : Dialect) (v : Formatting (List String)) (s : Place → Except CompileError (List Wording)) :
    Prop :=
  Numbers (Wording.renders d.marker) (·.flatMap Wording.slots) v s

/-- The visits of a node are those of its texts. Lists of statements are left to what is said of all of a tree. -/
structure Visited.Writes (d : Dialect) (v : Visited) (s : Spelled) : Prop where
  node : v.node = s.node
  expr : v.expr.Writes d s.expr
  source : v.source.Writes d s.source
  query : v.query.Writes d s.query
  definition : v.definition.Writes d s.definition
  constraint : v.constraint.Writes d s.constraint
  action : v.action.Writes d s.action

namespace Formatting

variable {α β γ δ : Type} {text : Nat → β → α} {slots : β → List Slot} {v : Formatting α}
  {s : Place → Except CompileError β}

/-- What comes next begins at the number behind the slots that were added. -/
theorem Numbers.bind (first : Numbers text slots v s) {f : Formatter} {k : α → Formatting γ}
    {k' : β → Except CompileError δ} {answer : δ → γ × Formatter}
    (rest : ∀ b, (k (text f.slots.length b)).run (f.add (slots b)) = answer <$> k' b) :
    (v >>= k).run f = answer <$> (s f.place >>= k') := by
  rw [StateT.run_bind, first f]
  cases s f.place with
  | error e => rfl
  | ok b => exact rest b

theorem answered {answer : δ → γ × Formatter} {c : γ} {f : Formatter} {b : δ} (same : (c, f) = answer b) :
    (pure c : Formatting γ).run f = answer <$> (pure b : Except CompileError δ) := congrArg Except.ok same

theorem lift_bind {x : Except CompileError β} {f : Formatter} {k : β → Formatting γ} {k' : β → Except CompileError δ}
    {answer : δ → γ × Formatter} (rest : ∀ b, (k b).run f = answer <$> k' b) :
    (StateT.lift x >>= k).run f = answer <$> (x >>= k') := by
  rw [StateT.run_bind]
  cases x with
  | error e => rfl
  | ok b => exact rest b

end Formatting

namespace Visit

open Formatting

variable {d : Dialect} {f f' : Formatter} {v : Visit} {s : Spelling}

theorem put {t : String} {w : Wording} (text : t = w.render d.marker f.slots.length) (slots : f' = f.add w.slots) :
    (pure t : Visit).run f' =
      (fun w : Wording => (w.render d.marker f.slots.length, f.add w.slots)) <$> (pure w : Except CompileError Wording) :=
  answered (Prod.ext text slots)

theorem said (t : String) : Visit.Writes d (pure t) (Dialect.fixed t) := fun _ => put (by simp) (by simp)

theorem fails (e : CompileError) : Visit.Writes d (throw e) fun _ => .error e := fun _ => rfl

/-- The marker has the number of the slots before. -/
theorem parameter_writes (source : SlotSource) (type : DataType) :
    (parameter d source type).Writes d fun _ => pure (slotOf source type) := fun _ =>
  put (w := slotOf source type) String.append_empty.symm rfl

/-- A visit may run under other settings, as long as they are put back behind it. -/
theorem run_under (f g : Formatter) (back : Formatter → Formatter) (writes : v.Writes d s) (same : g.slots = f.slots)
    (backs : ∀ l, back (g.add l) = f.add l) :
    (v.run g >>= fun result => pure (result.1, back result.2)) =
      (fun w : Wording => (w.render d.marker f.slots.length, f.add w.slots)) <$> s g.place := by
  rw [writes g]
  cases s g.place with
  | error e => rfl
  | ok w =>
    show Except.ok (_, _) = Except.ok (_, _)
    rw [backs, same]

theorem inlined_writes (writes : v.Writes d s) : v.inlined.Writes d fun p => s p.inlined := fun f =>
  run_under f { f with inline := true } (fun g => { g with inline := f.inline }) writes rfl fun _ => rfl

theorem within_writes (label : String) (writes : v.Writes d s) :
    (v.within label).Writes d fun p => s (p.within label) := fun f =>
  run_under f { f with scopes := label :: f.scopes } (fun g => { g with scopes := g.scopes.tail }) writes rfl fun _ => rfl

theorem ite_writes {c : Prop} {yes no : Decidable c} {v' : Visit} {s' : Spelling} (here : v.Writes d s)
    (there : v'.Writes d s') : Visit.Writes d (@ite _ c yes v v') fun p => @ite _ c no (s p) (s' p) := by
  by_cases h : c
  · simpa only [if_pos h] using here
  · simpa only [if_neg h] using there

section Lists

variable {γ : Type} {g : γ → Visit} {h : γ → Spelling} {l : List γ}

theorem mapM_writes (each : ∀ c ∈ l, (g c).Writes d (h c)) : WritesAll d (l.mapM g) fun p => l.mapM (h · p) := by
  induction l with
  | nil => exact fun f => answered (by simp)
  | cons c rest ih =>
    obtain ⟨here, later⟩ := List.forall_mem_cons.mp each
    intro f
    simp only [List.mapM_cons]
    exact Numbers.bind here fun w => Numbers.bind (ih later) fun ws => answered (by simp)

theorem joined_writes (separator : String) (each : ∀ c ∈ l, (g c).Writes d (h c)) :
    Visit.Writes d (do return separator.intercalate (← l.mapM g)) (spellList separator (l.map h)) := by
  intro f
  simp only [spellList, List.mapM_map]
  exact Numbers.bind (mapM_writes each) fun ws => put (Wording.render_joined ..).symm (by rw [Wording.slots_joined])

end Lists

end Visit

/-! ### Expressions -/

namespace Dialect

open Formatting Visit

variable {d : Dialect} {x y : Visited} {x' y' : Spelled} {ps : List (Visited × Spelled)}
  {o : Option (Visited × Spelled)}

theorem visitOperand_writes (writes : x.Writes d x') : (d.visitOperand x).Writes d (d.operand x') := by
  refine fun f => Numbers.bind writes.expr fun w => ?_
  rw [writes.node]
  split
  · exact put (by simp) (by simp)
  · exact put rfl rfl

theorem visitConstant_writes (value : Value) (type : DataType) :
    (d.visitConstant value type).Writes d (d.constantExpr value type) := by
  intro f
  unfold constantExpr
  change (if f.inline || value.isNull then StateT.lift (d.literal value)
    else parameter d (.literal value) type : Visit).run f = _ <$> (if f.inline || value.isNull then _ else _)
  split
  · rw [← bind_pure (StateT.lift (d.literal value))]
    exact lift_bind fun text => put (by simp) (by simp)
  · exact parameter_writes (.literal value) type f

theorem visitNullTest_writes (op : BinaryOp) (writes : x.Writes d x') :
    (d.visitNullTest op x).Writes d fun p => do
      return (← d.operand x' p) ++ .ofText (if op = .eq then " IS NULL" else " IS NOT NULL") :=
  fun _ => Numbers.bind (visitOperand_writes writes) fun _ => put (by simp) (by simp)

theorem visitBinary_writes (op : BinaryOp) (left : x.Writes d x') (right : y.Writes d y') :
    (d.visitBinary op x y).Writes d (d.binaryExpr op x' y') := by
  unfold visitBinary binaryExpr nullTested
  rw [left.node, right.node]
  by_cases equality : op.isEquality = true
  · by_cases onRight : y'.node.constant? = some .null
    · simpa [equality, onRight] using visitNullTest_writes op left
    · by_cases onLeft : x'.node.constant? = some .null
      · simpa [equality, onRight, onLeft] using visitNullTest_writes op right
      · simp only [equality, onRight, onLeft]
        refine fun f => Numbers.bind (visitOperand_writes left) fun w => Numbers.bind (visitOperand_writes right) fun v =>
          put (by simp [String.append_assoc]) (by simp)
  · simp only [equality]
    refine fun f => Numbers.bind (visitOperand_writes left) fun w => Numbers.bind (visitOperand_writes right) fun v =>
      put (by simp [String.append_assoc]) (by simp)

theorem visitUnary_writes (op : UnaryOp) (writes : x.Writes d x') :
    (d.visitUnary op x).Writes d (d.unaryExpr op x') := by
  refine fun f => Numbers.bind (visitOperand_writes writes) fun w => ?_
  cases op with
  | not | negate | isNull | isNotNull => exact put (by simp) (by simp)

theorem visitList_writes (each : ∀ c ∈ ps, c.1.Writes d c.2) :
    (visitList (ps.map Prod.fst)).Writes d (exprList (ps.map Prod.snd)) := by
  unfold visitList exprList
  rw [List.mapM_map, List.map_map]
  exact joined_writes ", " fun c member => (each c member).expr

theorem visitMembership_writes (each : ∀ c ∈ ps, c.1.Writes d c.2) :
    (d.visitMembership (ps.map Prod.fst)).Writes d (d.membershipExpr (ps.map Prod.snd)) := by
  match ps with
  | [] => exact fails _
  | [_] => exact fails _
  | sought :: item :: items =>
    obtain ⟨first, rest⟩ := List.forall_mem_cons.mp each
    exact fun f => Numbers.bind (visitOperand_writes first) fun w => Numbers.bind (visitList_writes rest) fun v =>
      put (by simp [String.append_assoc]) (by simp)

theorem visitCast_writes (type : DataType) (each : ∀ c ∈ ps, c.1.Writes d c.2) :
    (d.visitCast type (ps.map Prod.fst)).Writes d (d.castExpr type (ps.map Prod.snd)) := by
  match ps with
  | [] => exact fails _
  | _ :: _ :: _ => exact fails _
  | [argument] =>
    exact fun f => Numbers.bind (each argument (by simp)).expr fun w => lift_bind fun target =>
      put (by simp [String.append_assoc]) (by simp)

theorem visitOperator_writes (s : RoutineSpelling) (each : ∀ c ∈ ps, c.1.Writes d c.2) (text : String) :
    Numbers (fun next w => text ++ w.render d.marker next) Wording.slots
      ((ps.map Prod.fst).foldlM (d.visitOperator s) text) (d.operatorTail s (ps.map Prod.snd)) := by
  induction ps generalizing text with
  | nil => exact fun f => answered (by simp [Wording.render, Wording.slots])
  | cons argument rest ih =>
    obtain ⟨here, later⟩ := List.forall_mem_cons.mp each
    intro f
    simp only [List.map_cons, List.foldlM_cons]
    unfold visitOperator
    rw [bind_assoc]
    refine Numbers.bind (visitOperand_writes here) fun w => ?_
    rw [pure_bind]
    rw [← bind_pure (List.foldlM ..)]
    exact Numbers.bind (ih later _) fun v => answered (by simp [String.append_assoc])

theorem visitSpelled_writes (s : RoutineSpelling) (each : ∀ c ∈ ps, c.1.Writes d c.2) :
    (d.visitSpelled s (ps.map Prod.fst)).Writes d (d.spelledCall s (ps.map Prod.snd)) := by
  intro f
  unfold visitSpelled spelledCall
  split
  · match ps with
    | [] => rfl
    | first :: rest =>
      obtain ⟨here, later⟩ := List.forall_mem_cons.mp each
      refine Numbers.bind (visitOperand_writes here) fun w => ?_
      rw [← bind_pure (List.foldlM ..)]
      exact Numbers.bind (visitOperator_writes s later _) fun v => put (by simp) (by simp)
  · exact Numbers.bind (visitList_writes each) fun w => put (by simp [String.append_assoc]) (by simp)

theorem visitRoutine_writes (routine : Routine) (each : ∀ c ∈ ps, c.1.Writes d c.2) :
    Visit.Writes d
      (match d.routine routine with
        | some s => d.visitSpelled s (ps.map Prod.fst)
        | none => throw (.unsupportedRoutine routine d.name))
      (match d.routine routine with
        | some s => d.spelledCall s (ps.map Prod.snd)
        | none => fun _ => .error (.unsupportedRoutine routine d.name)) := by
  cases d.routine routine with
  | some s => exact visitSpelled_writes s each
  | none => exact fails _

theorem visitCall_writes (routine : Routine) (type : DataType) (each : ∀ c ∈ ps, c.1.Writes d c.2) :
    (d.visitCall routine (ps.map Prod.fst) type).Writes d (d.callExpr routine (ps.map Prod.snd) type) := by
  cases routine with
  | isIn => exact visitMembership_writes each
  | cast => exact visitCast_writes type each
  | _ => exact visitRoutine_writes _ each

theorem visitAggregate_writes (kind : AggregateKind) (distinct : Bool) (each : ∀ c ∈ o, c.1.Writes d c.2) :
    (d.visitAggregate kind (o.map Prod.fst) distinct).Writes d (d.aggregateExpr kind (o.map Prod.snd) distinct) := by
  intro f
  cases o with
  | none => exact put (by simp [String.append_assoc]) (by simp)
  | some argument =>
    exact Numbers.bind (each argument rfl).expr fun w => put (by simp [String.append_assoc]) (by simp)

theorem visitSubquery_writes (kind : SubqueryKind) (each : ∀ c ∈ o, c.1.Writes d c.2) (query : x.Writes d x') :
    (d.visitSubquery kind (o.map Prod.fst) x).Writes d (d.subqueryExpr kind (o.map Prod.snd) x') := by
  intro f
  unfold visitSubquery subqueryExpr
  rw [query.node]
  split
  · rfl
  · cases kind with
    | scalar | «exists» => exact Numbers.bind query.query fun w => put (by simp) (by simp)
    | isIn =>
      cases o with
      | none => rfl
      | some sought =>
        exact Numbers.bind (visitOperand_writes (each sought rfl)) fun w => Numbers.bind query.query fun v =>
          put (by simp [String.append_assoc]) (by simp)

theorem visitOrders_writes {items : List (OrderItem (Visited × Spelled))} (each : ∀ c ∈ items, c.expr.1.Writes d c.expr.2) :
    (visitOrders (items.map (·.map Prod.fst))).Writes d (orderList (items.map (·.map Prod.snd))) := by
  unfold visitOrders orderList
  rw [List.mapM_map, List.map_map]
  refine joined_writes ", " fun item member f => Numbers.bind (each item member).expr fun w => ?_
  obtain ⟨expr, direction⟩ := item
  cases direction with
  | ascending => exact put rfl rfl
  | descending => exact put (by simp [OrderItem.map]) (by simp [OrderItem.map])

theorem visitOver_writes {items : List (OrderItem (Visited × Spelled))} (source : x.Writes d x')
    (each : ∀ c ∈ items, c.expr.1.Writes d c.expr.2) :
    (visitOver x (items.map (·.map Prod.fst))).Writes d (overExpr x' (items.map (·.map Prod.snd))) := by
  refine fun f => Numbers.bind source.expr fun w => ?_
  simp only [List.isEmpty_map]
  split
  · exact put (by simp) (by simp)
  · exact Numbers.bind (visitOrders_writes each) fun v => put (by simp [String.append_assoc]) (by simp)

theorem intercalate_empty_cons (s : String) (l : List String) :
    "".intercalate (s :: l) = s ++ "".intercalate l := by
  cases l with
  | nil => simp
  | cons t l => rw [String.intercalate_cons_cons, String.append_empty]

theorem visitBranch_writes {branches : List (Branch (Visited × Spelled))}
    (each : ∀ b ∈ branches, b.condition.1.Writes d b.condition.2 ∧ b.result.1.Writes d b.result.2) (text : String) :
    Numbers (fun next ws => text ++ "".intercalate (Wording.renders d.marker next ws)) (·.flatMap Wording.slots)
      ((branches.map (·.map Prod.fst)).foldlM visitBranch text)
      fun p => (branches.map (·.map Prod.snd)).mapM (branchText · p) := by
  induction branches generalizing text with
  | nil => exact fun f => answered (by simp)
  | cons b rest ih =>
    obtain ⟨⟨condition, result⟩, later⟩ := List.forall_mem_cons.mp each
    intro f
    simp only [List.map_cons, List.foldlM_cons, List.mapM_cons]
    unfold visitBranch branchText
    simp only [bind_assoc, pure_bind]
    refine Numbers.bind condition.expr fun w => Numbers.bind result.expr fun v => ?_
    rw [← bind_pure (List.foldlM ..)]
    exact Numbers.bind (ih later _) fun ws => answered (by simp [intercalate_empty_cons, String.append_assoc])

theorem visitConditional_writes {branches : List (Branch (Visited × Spelled))}
    (each : ∀ b ∈ branches, b.condition.1.Writes d b.condition.2 ∧ b.result.1.Writes d b.result.2)
    (last : ∀ c ∈ o, c.1.Writes d c.2) :
    (visitConditional (branches.map (·.map Prod.fst)) (o.map Prod.fst)).Writes d
      (conditionalExpr (branches.map (·.map Prod.snd)) (o.map Prod.snd)) := by
  have tests : Numbers (fun next w => "CASE" ++ w.render d.marker next) Wording.slots
      ((branches.map (·.map Prod.fst)).foldlM visitBranch "CASE")
      (spellList "" ((branches.map (·.map Prod.snd)).map branchText)) := by
    intro f
    rw [← bind_pure (List.foldlM ..), spellList, List.mapM_map]
    exact Numbers.bind (visitBranch_writes each "CASE") fun ws =>
      answered (by simp only [Wording.render_joined, Wording.slots_joined])
  refine fun f => tests.bind fun w => ?_
  cases o with
  | none => exact put (by simp [String.append_assoc]) (by simp)
  | some otherwise =>
    exact Numbers.bind (last otherwise rfl).expr fun v => put (by simp [String.append_assoc]) (by simp)

theorem visitGroupAggregate_writes (label : String) (inGroup : x.Writes d x') (asQuery : y.Writes d y') :
    (visitGroupAggregate label x y).Writes d (groupAggregateExpr label x' y') := by
  intro f
  unfold groupAggregateExpr
  change (if f.scopes.head? = some label then x.expr else y.expr).run f = _ <$> if f.place.scope = some label then _ else _
  show _ = _ <$> if f.scopes.head? = some label then _ else _
  split
  · exact inGroup.expr f
  · exact asQuery.expr f

end Dialect

end QueryTree
