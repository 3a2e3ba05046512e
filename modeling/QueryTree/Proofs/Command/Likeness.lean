import Mathlib.Data.List.Forall2
import QueryTree.Command.Statement
import QueryTree.Node.Literals
import QueryTree.Proofs.Command.Plain

/-! Trees whose texts correspond.

The text of a layer is put together from the texts of its children and from what a child looks like without its
own children. So two layers whose children correspond have texts that correspond, for any way to compare texts
that goes through joining. Places where literals are written into the text are compared on their own, for there
a literal leaves no slot.
-/

set_option autoImplicit false

namespace QueryTree

def Shape.isSlot {α : Type} : Shape α → Bool
  | .constant .. | .placeholder .. | .parameter .. => true
  | _ => false

@[simp] theorem Shape.isSlot_map {α β : Type} (f : α → β) (s : Shape α) : (s.map f).isSlot = s.isSlot := by
  cases s <;> rfl

/-- A layer without its children. -/
def Node.look (n : Node) : Shape Unit := n.shape.map fun _ => ()

/-- Both give answers that correspond, or both fail with errors that do. -/
def Agree {ε α β : Type} (E : ε → ε → Prop) (R : α → β → Prop) : Except ε α → Except ε β → Prop
  | .ok a, .ok b => R a b
  | .error e, .error e' => E e e'
  | _, _ => False

namespace Agree

variable {ε α β α' β' : Type} {E : ε → ε → Prop} {R : α → β → Prop} {S : α' → β' → Prop}

theorem bind {x : Except ε α} {y : Except ε β} {f : α → Except ε α'} {g : β → Except ε β'}
    (first : Agree E R x y) (rest : ∀ a b, R a b → Agree E S (f a) (g b)) :
    Agree E S (x >>= f) (y >>= g) := by
  cases x with
  | error e =>
    cases y with
    | error e' => exact first
    | ok b => exact first.elim
  | ok a =>
    cases y with
    | error e' => exact first.elim
    | ok b => exact rest a b first

theorem mapM {γ : Type} {f : γ → Except ε α} {g : γ → Except ε β} {l : List γ}
    (each : ∀ c ∈ l, Agree E R (f c) (g c)) : Agree E (List.Forall₂ R) (l.mapM f) (l.mapM g) := by
  induction l with
  | nil => exact .nil
  | cons c rest ih =>
    simp only [List.mapM_cons]
    exact bind (each c (by simp)) fun a b here =>
      bind (ih fun d member => each d (by simp [member])) fun _ _ there => .cons here there

theorem isOk {x : Except ε α} {y : Except ε β} (agree : Agree E R x y) : x.isOk = y.isOk := by
  cases x with
  | error e =>
    cases y with
    | error e' => rfl
    | ok b => exact agree.elim
  | ok a =>
    cases y with
    | error e' => exact agree.elim
    | ok b => rfl

theorem eq {x y : Except ε α} (agree : Agree Eq Eq x y) : x = y := by
  cases x with
  | error e =>
    cases y with
    | error e' => exact congrArg Except.error agree
    | ok b => exact agree.elim
  | ok a =>
    cases y with
    | error e' => exact agree.elim
    | ok b => exact congrArg Except.ok agree

theorem refl (x : Except ε α) : Agree Eq Eq x x := by
  cases x with
  | error e => exact rfl
  | ok a => exact rfl

end Agree

/-- A way to compare the texts of two trees. The literals of the second may have been taken out of the first. -/
structure Likeness where
  /-- With `true`, for texts that may stand right behind a slot. -/
  wording : Bool → Wording → Wording → Prop
  error : CompileError → CompileError → Prop
  /-- The places at which texts are compared. -/
  shown : Place → Prop
  taken : Prop
  /-- The strings that are written. -/
  clean : String → Prop
  /-- Those that may stand right behind a slot. -/
  opens : String → Prop
  clean_plain : ∀ {s}, Plain s → clean s
  clean_append : ∀ {s t}, clean s → clean t → clean (s ++ t)
  opens_plain : ∀ {s}, Opens s → opens s
  opens_append : ∀ {s t}, opens s → opens t → opens (s ++ t)
  opens_before : ∀ {s}, opens s → s ≠ "" → ∀ t, opens (s ++ t)
  text : ∀ {after s}, clean s → (after = true → opens s) → wording after (.ofText s) (.ofText s)
  lead : ∀ {after s a b}, clean s → s ≠ "" → (after = true → opens s) → wording false a b →
    wording after (.ofText s ++ a) (.ofText s ++ b)
  empty : ∀ {after}, wording after [] []
  append : ∀ {after a b c d}, wording after a b → wording true c d → wording after (a ++ c) (b ++ d)
  blank : ∀ {after a b}, wording after a b → a.isBlank = b.isBlank
  fails : ∀ e, error e e
  fails_taken : taken → error (.unsupportedNode .placeholder) (.unsupportedNode .constant)
  within : ∀ {p} label, shown p → shown (p.within label)

namespace Likeness

variable (L : Likeness)

def Spellings (a b : Spelling) : Prop := ∀ p, L.shown p → Agree L.error (L.wording false) (a p) (b p)

/-- Look the same, but for a literal that was taken out. -/
def Nodes (a b : Node) : Prop :=
  a.look = b.look ∨ L.taken ∧ ∃ index value type, a = .placeholder index type ∧ b = .constant value type ∧
    value.isNull = false

structure Like (a b : Spelled) : Prop where
  node : L.Nodes a.node b.node
  /-- What is looked through to the strings of a child. -/
  words : ∀ s ∈ a.node.shape.words, L.clean s
  expr : L.Spellings a.expr b.expr
  source : L.Spellings a.source b.source
  query : L.Spellings a.query b.query
  statement : L.Spellings a.statement b.statement
  definition : L.Spellings a.definition b.definition
  constraint : L.Spellings a.constraint b.constraint
  action : L.Spellings a.action b.action

/-- Nothing was taken out, and literals that are written into the text are compared as well. -/
structure Exact : Prop where
  kept : ¬ L.taken
  inlined : ∀ {p}, L.shown p → L.shown p.inlined

end Likeness

namespace Dialect

variable (d : Dialect)

theorem spell_mk (s : Shape Node) : d.spell (.mk s) = d.spellLayer (s.map d.spell) := Node.fold_mk _ _

@[simp] theorem spell_node (n : Node) : (d.spell n).node = n := by
  induction n using Node.inductNode with
  | step s ih =>
    rw [spell_mk]
    show Node.mk ((s.map d.spell).map (·.node)) = Node.mk s
    rw [Shape.map_map, Shape.map_congr ih, Shape.map_id]

end Dialect

/-! ### What is seen of a child -/

namespace Node

def ofLook (s : Shape Unit) : Node := .mk (s.map fun _ => .tuple [])

/-- A question that only looks at a layer has one answer for nodes that look the same. -/
theorem eq_of_look {β : Type} (ask : Node → β) (looks : ∀ s, ask (.mk s) = ask (ofLook (s.map fun _ => ())))
    {a b : Node} (same : a.look = b.look) : ask a = ask b := by
  cases a with
  | mk s =>
    cases b with
    | mk t =>
      have same : (s.map fun _ => ()) = t.map fun _ => () := same
      rw [looks s, looks t, same]

end Node

namespace Likeness

variable {L : Likeness} {a b : Node}

theorem Nodes.isOperation (like : L.Nodes a b) (d : Dialect) : d.isOperation a = d.isOperation b := by
  rcases like with same | ⟨_, _, _, _, rfl, rfl, _⟩
  · exact Node.eq_of_look d.isOperation (fun s => by cases s <;> rfl) same
  · rfl

theorem Nodes.column? (like : L.Nodes a b) : a.column? = b.column? := by
  rcases like with same | ⟨_, _, _, _, rfl, rfl, _⟩
  · exact Node.eq_of_look Node.column? (fun s => by cases s <;> rfl) same
  · rfl

theorem Nodes.isNull (like : L.Nodes a b) : a.constant? = some .null ↔ b.constant? = some .null := by
  rcases like with same | ⟨_, _, value, _, rfl, rfl, notNull⟩
  · rw [Node.eq_of_look Node.constant? (fun s => by cases s <;> rfl) same]
  · cases value <;> simp_all [Node.constant?, Value.isNull]

theorem Nodes.isQuery (like : L.Nodes a b) : a.select?.isNone = b.select?.isNone := by
  rcases like with same | ⟨_, _, _, _, rfl, rfl, _⟩
  · exact Node.eq_of_look (fun n => n.select?.isNone) (fun s => by cases s <;> rfl) same
  · rfl

theorem Nodes.isJoin (like : L.Nodes a b) : a.kind = .join ↔ b.kind = .join := by
  rcases like with same | ⟨_, _, _, _, rfl, rfl, _⟩
  · rw [Node.eq_of_look Node.kind (fun s => by cases s <;> rfl) same]
  · simp [Node.kind, Shape.kind]

theorem Nodes.constraintName? (like : L.Nodes a b) : Dialect.constraintName? a = Dialect.constraintName? b := by
  rcases like with same | ⟨_, _, _, _, rfl, rfl, _⟩
  · exact Node.eq_of_look Dialect.constraintName? (fun s => by cases s <;> rfl) same
  · rfl

theorem Nodes.unsupported (like : L.Nodes a b) :
    L.error (.unsupportedNode a.kind) (.unsupportedNode b.kind) := by
  rcases like with same | ⟨taken, _, _, _, rfl, rfl, _⟩
  · rw [Node.eq_of_look Node.kind (fun s => by cases s <;> rfl) same]
    exact L.fails _
  · exact L.fails_taken taken

theorem Nodes.constant? (like : L.Nodes a b) (kept : ¬ L.taken) : a.constant? = b.constant? := by
  rcases like with same | ⟨taken, _⟩
  · exact Node.eq_of_look Node.constant? (fun s => by cases s <;> rfl) same
  · exact (kept taken).elim

/-! ### Texts put together -/

/-- A text that is written with more behind it. -/
structure Words (L : Likeness) (s : String) : Prop where
  clean : L.clean s
  full : s ≠ ""

/-- A text that may also stand right behind a slot. -/
structure Mark (L : Likeness) (s : String) : Prop where
  clean : L.clean s
  opens : L.opens s
  full : s ≠ ""

theorem clean_text (chars : List Char) (signless : (chars.all fun c => !isSign c) = true) :
    L.clean (String.ofList chars) := L.clean_plain (plain_text chars signless)

theorem ofList_ne_empty (c : Char) (rest : List Char) : String.ofList (c :: rest) ≠ "" := by
  intro same
  have chars := congrArg String.toList same
  rw [String.toList_ofList] at chars
  exact absurd chars (by simp)

theorem words (c : Char) (rest : List Char) (signless : ((c :: rest).all fun c => !isSign c) = true) :
    L.Words (String.ofList (c :: rest)) := ⟨clean_text _ signless, ofList_ne_empty c rest⟩

theorem mark (c : Char) (rest : List Char)
    (fine : (!isWord c && (c :: rest).all fun c => !isSign c) = true) : L.Mark (String.ofList (c :: rest)) := by
  obtain ⟨notWord, signless⟩ := Bool.and_eq_true_iff.mp fine
  exact ⟨clean_text _ signless, L.opens_plain (opens_text c rest (by simpa using notWord)), ofList_ne_empty c rest⟩

variable {s t : String} {after : Bool} {w v w' v' : Wording}

theorem ne_empty_of_before (full : s ≠ "") (t : String) : s ++ t ≠ "" := by
  intro same
  have chars := congrArg String.toList same
  rw [String.toList_append] at chars
  exact full (String.toList_eq_nil_iff.mp (List.append_eq_nil_iff.mp chars).1)

theorem ne_empty_of_behind (s : String) (full : t ≠ "") : s ++ t ≠ "" := by
  intro same
  have chars := congrArg String.toList same
  rw [String.toList_append] at chars
  exact full (String.toList_eq_nil_iff.mp (List.append_eq_nil_iff.mp chars).2)

theorem Words.before (first : L.Words s) (second : L.clean t) : L.Words (s ++ t) :=
  ⟨L.clean_append first.clean second, ne_empty_of_before first.full t⟩

theorem Words.behind (first : L.clean s) (second : L.Words t) : L.Words (s ++ t) :=
  ⟨L.clean_append first second.clean, ne_empty_of_behind s second.full⟩

theorem Mark.before (first : L.Mark s) (second : L.clean t) : L.Mark (s ++ t) :=
  ⟨L.clean_append first.clean second, L.opens_before first.opens first.full t, ne_empty_of_before first.full t⟩

theorem Mark.behind (first : L.clean s) (opens : L.opens s) (second : L.Mark t) : L.Mark (s ++ t) :=
  ⟨L.clean_append first second.clean, L.opens_append opens second.opens, ne_empty_of_behind s second.full⟩

theorem clean_intercalate {separator : String} (between : L.clean separator) {texts : List String}
    (each : ∀ s ∈ texts, L.clean s) : L.clean (separator.intercalate texts) :=
  intercalate_of (clean_text [] rfl) L.clean_append between each

theorem said (clean : L.clean s) : L.wording false (.ofText s) (.ofText s) := L.text clean nofun

theorem led (first : L.Words s) (rest : L.wording false w v) :
    L.wording false (.ofText s ++ w) (.ofText s ++ v) := L.lead first.clean first.full nofun rest

theorem marked (first : L.Mark s) (rest : L.wording false w v) :
    L.wording after (.ofText s ++ w) (.ofText s ++ v) := L.lead first.clean first.full (fun _ => first.opens) rest

theorem closed (last : L.Mark s) (first : L.wording after w v) :
    L.wording after (w ++ .ofText s) (v ++ .ofText s) := L.append first (L.text last.clean fun _ => last.opens)

theorem between (middle : L.Mark s) (first : L.wording after w v) (rest : L.wording false w' v') :
    L.wording after (w ++ .ofText s ++ w') (v ++ .ofText s ++ v') := by
  rw [List.append_assoc, List.append_assoc]
  exact L.append first (marked middle rest)

theorem enclosed (first : L.Words s) (last : L.Mark t) (inside : L.wording false w v) :
    L.wording false (.ofText s ++ w ++ .ofText t) (.ofText s ++ v ++ .ofText t) := closed last (led first inside)

theorem parenthesized (inside : L.wording false w v) : L.wording after w.parenthesized v.parenthesized :=
  closed (mark _ _ rfl) (marked (mark _ _ rfl) inside)

theorem joined {separator : String} (mark : L.Mark separator) {ws vs : List Wording}
    (like : List.Forall₂ (L.wording false) ws vs) :
    L.wording false (.joined separator ws) (.joined separator vs) := by
  induction like with
  | nil => exact L.empty
  | cons here there ih =>
    cases there with
    | nil => exact here
    | cons next rest => exact between mark here ih

theorem joined_empty {ws vs : List Wording} (like : List.Forall₂ (L.wording true) ws vs) :
    L.wording true (.joined "" ws) (.joined "" vs) := by
  induction like with
  | nil => exact L.empty
  | cons here there ih =>
    cases there with
    | nil => exact here
    | cons next rest =>
      have nothing : L.wording true (.ofText "") (.ofText "") :=
        L.text (clean_text [] rfl) fun _ => L.opens_plain (by intro c member; simp at member)
      exact L.append (L.append here nothing) ih

theorem choice {α β : Type} {r : α → β → Prop} {c : Prop} [Decidable c] {x x' : α} {y y' : β} (yes : r x y)
    (no : r x' y') : r (if c then x else x') (if c then y else y') := by
  split
  · exact yes
  · exact no

theorem either {P : String → Prop} {c : Prop} [Decidable c] (yes : P s) (no : P t) : P (if c then s else t) := by
  split
  · exact yes
  · exact no

theorem filtered {ws vs : List Wording} (like : List.Forall₂ (L.wording after) ws vs) :
    List.Forall₂ (L.wording after) (ws.filter fun w => !w.isBlank) (vs.filter fun w => !w.isBlank) := by
  induction like with
  | nil => exact .nil
  | cons here _ ih =>
    simp only [List.filter_cons, L.blank here]
    split
    · exact .cons here ih
    · exact ih

theorem spelledList {separator : String} (mark : L.Mark separator) {xs ys : List Spelling}
    (like : List.Forall₂ L.Spellings xs ys) : L.Spellings (spellList separator xs) (spellList separator ys) := by
  refine fun p shown => Agree.bind (R := List.Forall₂ (L.wording false)) ?_ fun _ _ here => joined mark here
  induction like with
  | nil => exact .nil
  | cons here _ ih =>
    simp only [List.mapM_cons]
    exact (here p shown).bind fun _ _ here => ih.bind fun _ _ there => .cons here there

theorem list {γ : Type} {separator : String} (mark : L.Mark separator) {f g : γ → Spelling} {l : List γ}
    (each : ∀ c ∈ l, L.Spellings (f c) (g c)) :
    L.Spellings (spellList separator (l.map f)) (spellList separator (l.map g)) := by
  apply spelledList mark
  rw [List.forall₂_map_left_iff, List.forall₂_map_right_iff, List.forall₂_same]
  exact each

theorem clauses {xs ys : List (Option Spelling)} (like : List.Forall₂ (Option.Rel L.Spellings) xs ys) :
    L.Spellings (Dialect.clauses xs) (Dialect.clauses ys) := by
  apply spelledList (mark _ _ rfl)
  induction like with
  | nil => exact .nil
  | cons here _ ih =>
    cases here with
    | some here => exact .cons here ih
    | none => exact ih

theorem unsupported (kind : Kind) : L.Spellings (QueryTree.unsupported kind) (QueryTree.unsupported kind) :=
  fun _ _ => L.fails _

theorem fixed (clean : L.clean s) : L.Spellings (Dialect.fixed s) (Dialect.fixed s) := fun _ _ => said clean

theorem phrase {words : Option String} (clean : ∀ s ∈ words, L.clean s) :
    Option.Rel L.Spellings (words.map Dialect.fixed) (words.map Dialect.fixed) := by
  cases words with
  | none => exact .none
  | some s => exact .some (fixed (clean s rfl))

theorem clause (first : L.Words s) {x y : Spelling} (like : L.Spellings x y) :
    L.Spellings (Dialect.clause s x) (Dialect.clause s y) :=
  fun p shown => (like p shown).bind fun _ _ here => led first here

/-! ### Expressions -/

variable {d : Dialect} (writes : d.Writes L.clean L.opens) {x y x' y' : Spelled} {ps : List (Spelled × Spelled)}

theorem operand (d : Dialect) (like : L.Like x y) : L.Spellings (d.operand x) (d.operand y) := by
  refine fun p shown => (like.expr p shown).bind fun w v here => ?_
  rw [like.node.isOperation d]
  split
  · exact parenthesized here
  · exact here

theorem nullTested (op : BinaryOp) (left : L.Like x y) (right : L.Like x' y') :
    match Dialect.nullTested op x x', Dialect.nullTested op y y' with
    | some tested, some tested' => L.Like tested tested'
    | none, none => True
    | _, _ => False := by
  simp only [Dialect.nullTested, left.node.isNull, right.node.isNull]
  split_ifs <;> trivial

theorem sign (op : BinaryOp) : L.Mark (" " ++ op.sign ++ " ") := by
  refine ((mark _ _ rfl).before ?_).before (clean_text _ rfl)
  cases op <;> exact clean_text _ rfl

theorem binaryExpr (d : Dialect) (op : BinaryOp) (left : L.Like x y) (right : L.Like x' y') :
    L.Spellings (d.binaryExpr op x x') (d.binaryExpr op y y') := by
  intro p shown
  have tested := nullTested op left right
  unfold Dialect.binaryExpr
  split at tested
  next found found' =>
    rw [found, found']
    have test : L.Mark (if op = .eq then " IS NULL" else " IS NOT NULL") :=
      either (P := L.Mark) (mark _ _ rfl) (mark _ _ rfl)
    exact (operand d tested p shown).bind fun _ _ here => closed test here
  next found found' =>
    rw [found, found']
    exact (operand d left p shown).bind fun _ _ here => (operand d right p shown).bind fun _ _ there =>
      between (sign op) here there
  next => exact tested.elim

theorem unaryExpr (d : Dialect) (op : UnaryOp) (like : L.Like x y) :
    L.Spellings (d.unaryExpr op x) (d.unaryExpr op y) := by
  refine fun p shown => (operand d like p shown).bind fun w v here => ?_
  cases op with
  | not => exact led (words _ _ rfl) here
  | negate => exact led (words _ _ rfl) here
  | isNull => exact closed (mark _ _ rfl) here
  | isNotNull => exact closed (mark _ _ rfl) here

theorem exprList (each : ∀ c ∈ ps, L.Like c.1 c.2) :
    L.Spellings (Dialect.exprList (ps.map Prod.fst)) (Dialect.exprList (ps.map Prod.snd)) := by
  simp only [Dialect.exprList, List.map_map]
  exact list (mark _ _ rfl) fun c member => (each c member).expr

theorem membershipExpr (d : Dialect) (each : ∀ c ∈ ps, L.Like c.1 c.2) :
    L.Spellings (d.membershipExpr (ps.map Prod.fst)) (d.membershipExpr (ps.map Prod.snd)) := by
  match ps with
  | [] => exact fun _ _ => L.fails _
  | [_] => exact fun _ _ => L.fails _
  | sought :: item :: items =>
    intro p shown
    have rest : ∀ c ∈ item :: items, L.Like c.1 c.2 := fun c member => each c (by simp [member])
    exact (operand d (each sought (by simp)) p shown).bind fun _ _ here => (exprList rest p shown).bind
      fun _ _ there => closed (mark _ _ rfl) (between (mark _ _ rfl) here there)

include writes

theorem castExpr {type : DataType} (clean : ∀ s ∈ type.words, L.clean s) (each : ∀ c ∈ ps, L.Like c.1 c.2) :
    L.Spellings (d.castExpr type (ps.map Prod.fst)) (d.castExpr type (ps.map Prod.snd)) := by
  match ps with
  | [] => exact fun _ _ => L.fails _
  | _ :: _ :: _ => exact fun _ _ => L.fails _
  | [argument] =>
    refine fun p shown => ((each argument (by simp)).expr p shown).bind fun _ _ here => ?_
    show Agree _ _ (d.typeName type >>= _) (d.typeName type >>= _)
    cases found : d.typeName type with
    | error e => exact L.fails e
    | ok name =>
      have last : L.Mark (" AS " ++ name ++ ")") :=
        ((mark _ _ rfl).before (writes.typeName clean found)).before (clean_text _ rfl)
      exact closed last (led (words _ _ rfl) here)

theorem operatorTail {routine : Routine} {s : RoutineSpelling} (found : d.routine routine = some s)
    (clean : ∀ t ∈ routine.words, L.clean t) (each : ∀ c ∈ ps, L.Like c.1 c.2) {p : Place} (shown : L.shown p) :
    Agree L.error (L.wording true) (d.operatorTail s (ps.map Prod.fst) p) (d.operatorTail s (ps.map Prod.snd) p) := by
  obtain ⟨name, opening, closing, opens⟩ := writes.routine clean found
  have first : L.Mark (" " ++ s.name ++ " " ++ s.opening) :=
    (((mark _ _ rfl).before name).before (clean_text _ rfl)).before opening
  induction ps with
  | nil => exact L.empty
  | cons argument rest ih =>
    exact (operand d (each argument (by simp)) p shown).bind fun _ _ here =>
      (ih fun c member => each c (by simp [member])).bind fun _ _ after =>
      L.append (L.append (marked first here) (L.text closing fun _ => opens)) after

theorem spelledCall {routine : Routine} {s : RoutineSpelling} (found : d.routine routine = some s)
    (clean : ∀ t ∈ routine.words, L.clean t) (each : ∀ c ∈ ps, L.Like c.1 c.2) :
    L.Spellings (d.spelledCall s (ps.map Prod.fst)) (d.spelledCall s (ps.map Prod.snd)) := by
  intro p shown
  obtain ⟨name, opening, closing, opens⟩ := writes.routine clean found
  unfold Dialect.spelledCall
  split
  · match ps with
    | [] => exact L.fails _
    | first :: rest =>
      exact (operand d (each first (by simp)) p shown).bind fun _ _ here =>
        (operatorTail writes found clean (fun c member => each c (by simp [member])) shown).bind fun _ _ after =>
        L.append here after
  · have first : L.Words (s.name ++ "(" ++ s.opening) := ((words _ _ rfl).behind name).before opening
    exact (exprList each p shown).bind fun _ _ here => enclosed first ((mark _ _ rfl).behind closing opens) here

theorem callExpr {routine : Routine} {type : DataType} (clean : ∀ t ∈ routine.words ++ type.words, L.clean t)
    (each : ∀ c ∈ ps, L.Like c.1 c.2) :
    L.Spellings (d.callExpr routine (ps.map Prod.fst) type) (d.callExpr routine (ps.map Prod.snd) type) := by
  obtain ⟨ofRoutine, ofType⟩ := List.forall_mem_append.mp clean
  unfold Dialect.callExpr
  split
  · exact membershipExpr d each
  · exact castExpr writes ofType each
  · split
    next found => exact spelledCall writes found ofRoutine each
    next => exact fun _ _ => L.fails _

variable {o : Option (Spelled × Spelled)}

theorem aggregateExpr (kind : AggregateKind) (distinct : Bool) (each : ∀ c ∈ o, L.Like c.1 c.2) :
    L.Spellings (d.aggregateExpr kind (o.map Prod.fst) distinct)
      (d.aggregateExpr kind (o.map Prod.snd) distinct) := by
  intro p shown
  have first : L.Words (d.aggregate kind ++ "(" ++ if distinct then "DISTINCT " else "") := by
    refine ((words _ _ rfl).behind (writes.aggregate kind)).before ?_
    exact either (P := L.clean) (clean_text _ rfl) (clean_text [] rfl)
  cases o with
  | none => exact enclosed first (mark _ _ rfl) (said (clean_text _ rfl))
  | some argument =>
    exact ((each argument rfl).expr p shown).bind fun _ _ here => enclosed first (mark _ _ rfl) here

omit writes

theorem subqueryExpr (d : Dialect) (kind : SubqueryKind) (each : ∀ c ∈ o, L.Like c.1 c.2) (query : L.Like x y) :
    L.Spellings (d.subqueryExpr kind (o.map Prod.fst) x) (d.subqueryExpr kind (o.map Prod.snd) y) := by
  intro p shown
  simp only [Dialect.subqueryExpr, query.node.isQuery]
  split
  · exact query.node.unsupported
  · cases kind with
    | scalar => exact (query.query p shown).bind fun _ _ here => parenthesized here
    | «exists» => exact (query.query p shown).bind fun _ _ here => led (words _ _ rfl) (parenthesized here)
    | isIn =>
      cases o with
      | none => exact L.fails _
      | some sought =>
        exact (operand d (each sought rfl) p shown).bind fun _ _ here => (query.query p shown).bind
          fun _ _ there => between (mark _ _ rfl) here (parenthesized there)

theorem orderList {items : List (OrderItem (Spelled × Spelled))} (each : ∀ c ∈ items, L.Like c.expr.1 c.expr.2) :
    L.Spellings (Dialect.orderList (items.map (·.map Prod.fst)))
      (Dialect.orderList (items.map (·.map Prod.snd))) := by
  simp only [Dialect.orderList, List.map_map]
  refine list (mark _ _ rfl) fun item member p shown => ((each item member).expr p shown).bind fun _ _ here => ?_
  obtain ⟨expr, direction⟩ := item
  cases direction with
  | ascending => exact here
  | descending => exact closed (mark _ _ rfl) here

theorem overExpr {items : List (OrderItem (Spelled × Spelled))} (source : L.Like x y)
    (each : ∀ c ∈ items, L.Like c.expr.1 c.expr.2) :
    L.Spellings (Dialect.overExpr x (items.map (·.map Prod.fst)))
      (Dialect.overExpr y (items.map (·.map Prod.snd))) := by
  refine fun p shown => (source.expr p shown).bind fun _ _ here => ?_
  simp only [List.isEmpty_map]
  split
  · exact closed (mark _ _ rfl) here
  · exact (orderList each p shown).bind fun _ _ there => closed (mark _ _ rfl) (between (mark _ _ rfl) here there)

theorem branchesText {branches : List (Branch (Spelled × Spelled))}
    (each : ∀ b ∈ branches, L.Like b.condition.1 b.condition.2 ∧ L.Like b.result.1 b.result.2) {p : Place}
    (shown : L.shown p) : Agree L.error (L.wording true)
      (spellList "" ((branches.map (·.map Prod.fst)).map Dialect.branchText) p)
      (spellList "" ((branches.map (·.map Prod.snd)).map Dialect.branchText) p) := by
  refine Agree.bind (R := List.Forall₂ (L.wording true)) ?_ fun _ _ here => joined_empty here
  simp only [List.map_map, List.mapM_map]
  refine Agree.mapM fun b member => ?_
  obtain ⟨condition, result⟩ := each b member
  exact (condition.expr p shown).bind fun _ _ here => (result.expr p shown).bind fun _ _ there =>
    between (mark _ _ rfl) (marked (mark _ _ rfl) here) there

theorem conditionalExpr {branches : List (Branch (Spelled × Spelled))}
    (each : ∀ b ∈ branches, L.Like b.condition.1 b.condition.2 ∧ L.Like b.result.1 b.result.2)
    (last : ∀ c ∈ o, L.Like c.1 c.2) :
    L.Spellings (Dialect.conditionalExpr (branches.map (·.map Prod.fst)) (o.map Prod.fst))
      (Dialect.conditionalExpr (branches.map (·.map Prod.snd)) (o.map Prod.snd)) := by
  intro p shown
  refine (branchesText each shown).bind fun _ _ tests => ?_
  have start : L.wording false (.ofText "CASE" ++ _) (.ofText "CASE" ++ _) := L.append (said (clean_text _ rfl)) tests
  cases o with
  | none => exact closed (mark _ _ rfl) (L.append start L.empty)
  | some otherwise =>
    exact ((last otherwise rfl).expr p shown).bind fun _ _ there =>
      closed (mark _ _ rfl) (L.append start (marked (mark _ _ rfl) there))

theorem groupAggregateExpr (label : String) (inGroup : L.Like x y) (asQuery : L.Like x' y') :
    L.Spellings (Dialect.groupAggregateExpr label x x') (Dialect.groupAggregateExpr label y y') := by
  intro p shown
  simp only [Dialect.groupAggregateExpr]
  split
  · exact inGroup.expr p shown
  · exact asQuery.expr p shown

/-! ### Queries -/

theorem optional (first : L.Words s) {part : Spelled → Spelling}
    (whole : ∀ c ∈ o, L.Spellings (part c.1) (part c.2)) :
    Option.Rel L.Spellings ((o.map Prod.fst).map fun c => Dialect.clause s (part c))
      ((o.map Prod.snd).map fun c => Dialect.clause s (part c)) := by
  cases o with
  | none => exact .none
  | some c => exact .some (clause first (whole c rfl))

include writes

theorem projected {b : Binding (Spelled × Spelled)} (clean : L.clean b.name) (like : L.Like b.expr.1 b.expr.2) :
    L.Spellings (d.projected (b.map Prod.fst)) (d.projected (b.map Prod.snd)) := by
  intro p shown
  have wildcard : (b.map Prod.fst).isWildcard = (b.map Prod.snd).isWildcard := rfl
  have column : (b.map Prod.fst).expr.node.column? = (b.map Prod.snd).expr.node.column? := like.node.column?
  have renamed : L.Mark (" AS " ++ d.quoteIdent b.name) := (mark _ _ rfl).before (writes.ident clean)
  simp only [Dialect.projected, wildcard, column]
  split
  · exact said (clean_text _ rfl)
  · refine (like.expr p shown).bind fun _ _ here => ?_
    simp only [Binding.map]
    exact choice (r := L.wording false) here (closed renamed here)

omit writes

section Selects

variable {q : Select (Spelled × Spelled)} (each : ∀ c ∈ q.children, L.Like c.1 c.2)

include each

theorem topClause (d : Dialect) {p : Place} (shown : L.shown p) :
    Agree L.error (fun w v => ∀ {w' v'}, L.wording false w' v' → L.wording false (w ++ w') (v ++ v'))
      (d.topClause (q.map Prod.fst) p) (d.topClause (q.map Prod.snd) p) := by
  simp only [Select.children, List.forall_mem_append] at each
  obtain ⟨_, take⟩ := each
  simp only [Dialect.topClause, Select.map]
  cases h : q.take with
  | none => exact id
  | some n =>
    cases q.skip with
    | some _ => exact id
    | none =>
      simp only [Option.map_some, Option.map_none]
      split
      · exact id
      · refine ((take n (by simp [h])).expr p shown).bind fun _ _ here _ _ columns => ?_
        exact between (mark _ _ rfl) (led (words _ _ rfl) here) columns

include writes

theorem selectClause (clean : ∀ b ∈ q.columns, L.clean b.name) :
    L.Spellings (d.selectClause (q.map Prod.fst)) (d.selectClause (q.map Prod.snd)) := by
  intro p shown
  have top := topClause each d shown
  simp only [Select.children, List.forall_mem_append] at each
  obtain ⟨⟨⟨⟨⟨⟨columns, _⟩, _⟩, _⟩, _⟩, _⟩, _⟩ := each
  have listed : L.Spellings (spellList ", " ((q.map Prod.fst).columns.map d.projected))
      (spellList ", " ((q.map Prod.snd).columns.map d.projected)) := by
    simp only [Select.map, List.map_map]
    exact list (mark _ _ rfl) fun b member =>
      projected writes (clean b member) (columns _ (List.mem_map_of_mem member))
  have empty : (q.map Prod.fst).columns.isEmpty = (q.map Prod.snd).columns.isEmpty := by
    simp only [Select.map, List.isEmpty_map]
  have distinct : (q.map Prod.fst).distinct = (q.map Prod.snd).distinct := rfl
  have first : L.Words (if q.distinct then "SELECT DISTINCT " else "SELECT ") :=
    either (P := L.Words) (words _ _ rfl) (words _ _ rfl)
  simp only [Dialect.selectClause, empty, distinct]
  refine top.bind fun _ _ top => ?_
  split
  · show L.wording false _ _
    rw [List.append_assoc, List.append_assoc]
    exact led first (top (said (clean_text _ rfl)))
  · refine (listed p shown).bind fun _ _ rest => ?_
    show L.wording false _ _
    rw [List.append_assoc, List.append_assoc]
    exact led first (top rest)

omit writes

theorem orderClause (d : Dialect) :
    Option.Rel L.Spellings (d.orderClause (q.map Prod.fst)) (d.orderClause (q.map Prod.snd)) := by
  simp only [Select.children, List.forall_mem_append] at each
  obtain ⟨⟨⟨_, orderBy⟩, _⟩, _⟩ := each
  have skipped : (q.map Prod.fst).skip.isSome = (q.map Prod.snd).skip.isSome := by
    simp only [Select.map, Option.isSome_map]
  have unordered : (q.map Prod.fst).orderBy.isEmpty = (q.map Prod.snd).orderBy.isEmpty := by
    simp only [Select.map, List.isEmpty_map]
  simp only [Dialect.orderClause, skipped, unordered]
  split_ifs
  · exact .some (clause (words _ _ rfl) (orderList fun item member => orderBy _ (List.mem_map_of_mem member)))
  · exact .some (fixed (clean_text _ rfl))
  · exact .none

include writes

theorem limitClauses : List.Forall₂ (Option.Rel L.Spellings) (d.limitClauses (q.map Prod.fst))
    (d.limitClauses (q.map Prod.snd)) := by
  simp only [Select.children, List.forall_mem_append, Option.mem_toList] at each
  obtain ⟨⟨_, skip⟩, take⟩ := each
  have fetched : ∀ n ∈ q.take, L.Spellings n.1.expr n.2.expr := fun n member => (take n member).expr
  have passed : ∀ n ∈ q.skip, L.Spellings n.1.expr n.2.expr := fun n member => (skip n member).expr
  unfold Dialect.limitClauses
  simp only [Select.map]
  cases d.limitStyle with
  | limitOffset =>
    refine .cons ?_ (.cons ?_ .nil)
    · cases h : q.take with
      | some n => exact .some (clause (words _ _ rfl) (fetched n h))
      | none =>
        cases q.skip with
        | none => exact .none
        | some _ =>
          cases found : d.unboundedLimit with
          | none => exact .none
          | some unbounded =>
            exact .some (fixed (L.clean_append (clean_text _ rfl) (writes.unboundedLimit found)))
    · cases h : q.skip with
      | none => exact .none
      | some n => exact .some (clause (words _ _ rfl) (passed n h))
  | offsetFetch | rowNumber =>
    cases h : q.skip with
    | none => exact .nil
    | some n =>
      refine .cons (.some fun p shown => ?_) (.cons ?_ .nil)
      · exact (passed n h p shown).bind fun _ _ here => enclosed (words _ _ rfl) (mark _ _ rfl) here
      · cases h : q.take with
        | none => exact .none
        | some m =>
          refine .some fun p shown => ?_
          exact (fetched m h p shown).bind fun _ _ here => enclosed (words _ _ rfl) (mark _ _ rfl) here

theorem selectText (clean : ∀ b ∈ q.columns, L.clean b.name) :
    L.Spellings (d.selectText (q.map Prod.fst)) (d.selectText (q.map Prod.snd)) := by
  intro p shown
  have columns := selectClause writes each clean
  have ordered := orderClause each d
  have limited := limitClauses writes each
  simp only [Select.children, List.forall_mem_append, Option.mem_toList] at each
  obtain ⟨⟨⟨⟨⟨⟨_, source⟩, filter⟩, groupBy⟩, _⟩, _⟩, _⟩ := each
  have grouped : Option.Rel L.Spellings
      (if (q.map Prod.fst).groupBy.isEmpty then none
        else some (Dialect.clause "GROUP BY " (Dialect.exprList (q.map Prod.fst).groupBy)))
      (if (q.map Prod.snd).groupBy.isEmpty then none
        else some (Dialect.clause "GROUP BY " (Dialect.exprList (q.map Prod.snd).groupBy))) := by
    simp only [Select.map, List.isEmpty_map]
    split
    · exact .none
    · exact .some (clause (words _ _ rfl) (exprList groupBy))
  have locked : Option.Rel L.Spellings (if q.forUpdate then d.forUpdate.map Dialect.fixed else none)
      (if q.forUpdate then d.forUpdate.map Dialect.fixed else none) :=
    choice (r := Option.Rel L.Spellings) (phrase fun _ found => writes.forUpdate found) .none
  have reads : L.Words "FROM " := words _ _ rfl
  have tests : L.Words "WHERE " := words _ _ rfl
  have first := List.Forall₂.cons (.some columns) <| .cons (optional reads fun c member => (source c member).source) <|
    .cons (optional tests fun c member => (filter c member).expr) <| .cons grouped <| .cons ordered .nil
  exact clauses (List.rel_append (List.rel_append first limited) (.cons locked .nil)) _ (L.within _ shown)

end Selects

include writes

theorem joinText (kind : JoinKind) (left : L.Like x y) (right : L.Like x' y') (condition : ∀ c ∈ o, L.Like c.1 c.2) :
    L.Spellings (d.joinText kind x x' (o.map Prod.fst)) (d.joinText kind y y' (o.map Prod.snd)) := by
  intro p shown
  unfold Dialect.joinText
  cases found : d.joinKeyword kind with
  | none => exact L.fails _
  | some keyword =>
    have middle : L.Mark (" " ++ keyword ++ " ") :=
      ((mark _ _ rfl).before (writes.joinKeyword found)).before (clean_text _ rfl)
    refine (left.source p shown).bind fun _ _ here => (right.source p shown).bind fun w v there => ?_
    have grouped : L.wording false (if x'.node.kind = .join then w.parenthesized else w)
        (if y'.node.kind = .join then v.parenthesized else v) := by
      simp only [right.node.isJoin]
      exact choice (r := L.wording false) (parenthesized there) there
    have both := between middle here grouped
    cases o with
    | none =>
      simp only [Option.map_none]
      split
      · exact closed (mark _ _ rfl) both
      · exact L.append both L.empty
    | some c =>
      exact ((condition c rfl).expr p shown).bind fun _ _ on => L.append both (marked (mark _ _ rfl) on)

omit writes

/-! ### Statements -/

section Statements

include writes

theorem identList {names : List String} (clean : ∀ s ∈ names, L.clean s) : L.clean (d.identList names) := by
  refine clean_intercalate (clean_text _ rfl) fun s member => ?_
  obtain ⟨name, inside, rfl⟩ := List.mem_map.mp member
  exact writes.ident (clean name inside)

theorem insertText {i : Insert (Spelled × Spelled)} (clean : ∀ s ∈ i.table :: (i.columns ++ i.returning), L.clean s)
    (each : ∀ c ∈ i.values, L.Like c.1 c.2) :
    L.Spellings (d.insertText (i.map Prod.fst)) (d.insertText (i.map Prod.snd)) := by
  intro p shown
  simp only [List.forall_mem_cons, List.forall_mem_append] at clean
  obtain ⟨table, columns, returning⟩ := clean
  simp only [Dialect.insertText, Insert.map, List.length_map, List.isEmpty_map]
  split
  · exact L.fails _
  · have given : L.Spellings
        (if i.values.isEmpty then Dialect.fixed "DEFAULT VALUES"
          else fun p => do return .ofText "VALUES " ++ (← Dialect.exprList (i.values.map Prod.fst) p).parenthesized)
        (if i.values.isEmpty then Dialect.fixed "DEFAULT VALUES"
          else fun p => do return .ofText "VALUES " ++ (← Dialect.exprList (i.values.map Prod.snd) p).parenthesized) := by
      exact choice (r := L.Spellings) (fixed (clean_text _ rfl)) fun p shown =>
        (exprList each p shown).bind fun _ _ here => led (words _ _ rfl) (parenthesized here)
    have into : L.clean ("INSERT INTO " ++ d.quoteIdent i.table) :=
      L.clean_append (clean_text _ rfl) (writes.ident table)
    have named : L.clean ("(" ++ d.identList i.columns ++ ")") :=
      L.clean_append (L.clean_append (clean_text _ rfl) (identList writes columns)) (clean_text _ rfl)
    have inserted : L.clean (", ".intercalate (i.returning.map fun c => "INSERTED." ++ d.quoteIdent c)) := by
      refine clean_intercalate (clean_text _ rfl) fun s member => ?_
      obtain ⟨name, inside, rfl⟩ := List.mem_map.mp member
      exact L.clean_append (clean_text _ rfl) (writes.ident (returning name inside))
    have output : L.clean ("OUTPUT " ++ _) := L.clean_append (clean_text _ rfl) inserted
    have back : L.clean ("RETURNING " ++ _) := L.clean_append (clean_text _ rfl) (identList writes returning)
    exact clauses (.cons (.some (fixed into)) <|
      .cons (choice (r := Option.Rel L.Spellings) .none (.some (fixed named))) <|
      .cons (choice (r := Option.Rel L.Spellings) (.some (fixed output)) .none) <| .cons (.some given) <|
      .cons (choice (r := Option.Rel L.Spellings) (.some (fixed back)) .none) .nil) p shown

theorem updateText {u : Update (Spelled × Spelled)} (clean : ∀ s ∈ u.table :: u.assignments.map (·.name), L.clean s)
    (each : ∀ c ∈ u.children, L.Like c.1 c.2) :
    L.Spellings (d.updateText (u.map Prod.fst)) (d.updateText (u.map Prod.snd)) := by
  simp only [Update.children, List.forall_mem_append, Option.mem_toList] at each
  obtain ⟨assignments, filter⟩ := each
  obtain ⟨table, names⟩ := List.forall_mem_cons.mp clean
  have same (g : Spelled × Spelled → Spelled) : (u.map g).assignments.isEmpty = u.assignments.isEmpty :=
    List.isEmpty_map
  unfold Dialect.updateText
  by_cases empty : u.assignments.isEmpty = true
  · rw [if_pos ((same _).trans empty), if_pos ((same _).trans empty)]
    exact fun _ _ => L.fails _
  · rw [if_neg (by rwa [same]), if_neg (by rwa [same])]
    dsimp only [Update.map]
    rw [List.map_map, List.map_map]
    have assigned : L.Spellings
        (spellList ", " (u.assignments.map (d.assignment ∘ Binding.map Prod.fst)))
        (spellList ", " (u.assignments.map (d.assignment ∘ Binding.map Prod.snd))) := by
      refine list (mark _ _ rfl) fun b member => clause ?_ (assignments _ (List.mem_map_of_mem member)).expr
      exact (words _ _ rfl).behind (writes.ident (names _ (List.mem_map_of_mem member)))
    have start : L.clean ("UPDATE " ++ d.quoteIdent u.table) := L.clean_append (clean_text _ rfl) (writes.ident table)
    have tests : L.Words "WHERE " := words _ _ rfl
    exact clauses (.cons (.some (fixed start)) <| .cons (.some (clause (words _ _ rfl) assigned)) <|
      .cons (optional tests fun c member => (filter c member).expr) .nil)

theorem deleteText {owner : String} {label : Option String} (clean : ∀ s ∈ owner :: label.toList, L.clean s)
    (each : ∀ c ∈ o, L.Like c.1 c.2) :
    L.Spellings (d.deleteText owner label (o.map Prod.fst)) (d.deleteText owner label (o.map Prod.snd)) := by
  obtain ⟨table, labels⟩ := List.forall_mem_cons.mp clean
  have start := writes.deleteFrom table fun l found => labels l (Option.mem_toList.mpr found)
  have tests : L.Words "WHERE " := words _ _ rfl
  exact clauses (.cons (.some (fixed start)) <| .cons (optional tests fun c member => (each c member).expr) .nil)

theorem createTableText {t : CreateTable (Spelled × Spelled)} (clean : L.clean t.table)
    (columns : ∀ c ∈ t.columns, L.Spellings c.1.definition c.2.definition)
    (constraints : ∀ c ∈ t.constraints, L.Spellings c.1.constraint c.2.constraint) :
    L.Spellings (d.createTableText (t.map Prod.fst)) (d.createTableText (t.map Prod.snd)) := by
  have parts : L.Spellings
      (spellList ", " ((t.map Prod.fst).columns.map (·.definition) ++ (t.map Prod.fst).constraints.map (·.constraint)))
      (spellList ", " ((t.map Prod.snd).columns.map (·.definition) ++ (t.map Prod.snd).constraints.map (·.constraint))) := by
    apply spelledList (mark _ _ rfl)
    simp only [CreateTable.map, List.map_map]
    apply List.rel_append
    · rw [List.forall₂_map_left_iff, List.forall₂_map_right_iff, List.forall₂_same]
      exact columns
    · rw [List.forall₂_map_left_iff, List.forall₂_map_right_iff, List.forall₂_same]
      exact constraints
  refine fun p shown => (parts p shown).bind fun _ _ here => led ?_ (parenthesized here)
  refine (words _ _ rfl).behind (L.clean_append ?_ (writes.ident clean))
  split
  next guard found =>
    refine L.clean_append ?_ (clean_text _ rfl)
    split at found
    · exact writes.tableGuard clean found
    · exact absurd found (by simp)
  next => exact either (P := L.clean) (clean_text _ rfl) (clean_text _ rfl)

theorem definitionText {name : String} {type : DataType} (clean : ∀ s ∈ name :: type.words, L.clean s)
    (each : ∀ c ∈ ps, L.Spellings c.1.constraint c.2.constraint) :
    L.Spellings (d.definitionText name type (ps.map Prod.fst)) (d.definitionText name type (ps.map Prod.snd)) := by
  intro p shown
  obtain ⟨named, typed⟩ := List.forall_mem_cons.mp clean
  simp only [Dialect.definitionText, List.map_map]
  cases found : d.typeName type with
  | error e => exact L.fails e
  | ok typeName =>
    have start : L.clean (d.quoteIdent name ++ " " ++ typeName) :=
      L.clean_append (L.clean_append (writes.ident named) (clean_text _ rfl)) (writes.typeName typed found)
    refine clauses (.cons (.some (fixed start)) ?_) p shown
    rw [List.forall₂_map_left_iff, List.forall₂_map_right_iff, List.forall₂_same]
    exact fun c member => .some (each c member)

theorem withNames {start : String} (words : L.clean start) {names : List String} (clean : ∀ s ∈ names, L.clean s) :
    L.clean (d.withNames start names) :=
  either (P := L.clean) words
    (L.clean_append (L.clean_append (L.clean_append words (clean_text _ rfl)) (identList writes clean))
      (clean_text _ rfl))

omit writes in
theorem referentialText {start : String} (words : L.clean start) (action : ReferentialAction) :
    L.clean ((action.text?.map (start ++ ·)).getD "") := by
  cases action with
  | noAction => exact clean_text [] rfl
  | cascade => exact (L.clean_append words (clean_text _ rfl) : L.clean (start ++ "CASCADE"))
  | setNull => exact (L.clean_append words (clean_text _ rfl) : L.clean (start ++ "SET NULL"))
  | restrict => exact (L.clean_append words (clean_text _ rfl) : L.clean (start ++ "RESTRICT"))

theorem foreignKeyText {key : ForeignKey} (clean : ∀ s ∈ key.columns ++ key.referencedTable :: key.referencedColumns,
    L.clean s) : L.clean (d.foreignKeyText key) := by
  simp only [List.forall_mem_append, List.forall_mem_cons] at clean
  obtain ⟨columns, table, referenced⟩ := clean
  have own : L.clean (if key.columns.isEmpty then "" else "FOREIGN KEY (" ++ d.identList key.columns ++ ") ") :=
    either (P := L.clean) (clean_text [] rfl)
      (L.clean_append (L.clean_append (clean_text _ rfl) (identList writes columns)) (clean_text _ rfl))
  have deletion : L.clean ((key.onDelete.text?.map (" ON DELETE " ++ ·)).getD "") :=
    referentialText (clean_text _ rfl) _
  have change : L.clean ((key.onUpdate.text?.map (" ON UPDATE " ++ ·)).getD "") :=
    referentialText (clean_text _ rfl) _
  unfold Dialect.foreignKeyText
  refine L.clean_append (L.clean_append (L.clean_append ?_ (clean_text _ rfl)) deletion) change
  refine L.clean_append (L.clean_append ?_ (clean_text _ rfl)) (identList writes referenced)
  exact L.clean_append (L.clean_append own (clean_text _ rfl)) (writes.ident table)

theorem constraintBody (exact : L.Exact) {kind : ConstraintKind (Spelled × Spelled)}
    (clean : ∀ s ∈ kind.words, L.clean s) (each : ∀ c ∈ kind.children, L.Like c.1 c.2) :
    L.Spellings (d.constraintBody (kind.map Prod.fst)) (d.constraintBody (kind.map Prod.snd)) := by
  cases kind with
  | primaryKey columns clustered =>
    refine fixed (withNames writes (L.clean_append (clean_text _ rfl) ?_) clean)
    refine either (P := L.clean) ?_ (clean_text [] rfl)
    rcases clustered with _ | _ | _
    · exact clean_text [] rfl
    · exact (clean_text _ rfl : L.clean " NONCLUSTERED")
    · exact (clean_text _ rfl : L.clean " CLUSTERED")
  | unique columns => exact fixed (withNames writes (clean_text _ rfl) clean)
  | foreignKey key => exact fixed (foreignKeyText writes clean)
  | notNull => exact fixed (clean_text _ rfl)
  | autoIncrement => exact fixed writes.autoIncrement
  | default value =>
    have like := each value (by simp [ConstraintKind.children])
    exact fun p shown => clause (words _ _ rfl) like.expr _ (exact.inlined shown)

theorem constraintText (exact : L.Exact) {name : Option String} {kind : ConstraintKind (Spelled × Spelled)}
    (clean : ∀ s ∈ name.toList ++ kind.words, L.clean s) (each : ∀ c ∈ kind.children, L.Like c.1 c.2) :
    L.Spellings (d.constraintText name (kind.map Prod.fst)) (d.constraintText name (kind.map Prod.snd)) := by
  obtain ⟨named, parts⟩ := List.forall_mem_append.mp clean
  cases name with
  | none => exact constraintBody writes exact parts each
  | some name =>
    have start : L.Words ("CONSTRAINT " ++ d.quoteIdent name ++ " ") :=
      ((words _ _ rfl).before (writes.ident (named name (by simp)))).before (clean_text _ rfl)
    exact clause start (constraintBody writes exact parts each)

theorem actionText (change : ConstraintChange) (whole : L.Spellings x.constraint y.constraint)
    (same : Dialect.constraintName? x.node = Dialect.constraintName? y.node)
    (clean : ∀ name ∈ Dialect.constraintName? x.node, L.clean name) :
    L.Spellings (d.actionText change x) (d.actionText change y) := by
  cases change with
  | add => exact clause (words _ _ rfl) whole
  | drop =>
    simp only [Dialect.actionText, ← same]
    split
    next name found => exact fixed (L.clean_append (clean_text _ rfl) (writes.ident (clean name found)))
    next => exact fun _ _ => L.fails _

theorem alterTableText {owner : String} (clean : L.clean owner) (each : ∀ c ∈ ps, L.Spellings c.1.action c.2.action) :
    L.Spellings (d.alterTableText owner (ps.map Prod.fst)) (d.alterTableText owner (ps.map Prod.snd)) := by
  simp only [Dialect.alterTableText, List.map_map]
  have start : L.Words ("ALTER TABLE " ++ d.quoteIdent owner ++ " ") :=
    ((words _ _ rfl).before (writes.ident clean)).before (clean_text _ rfl)
  exact list (mark _ _ rfl) fun c member => clause start (each c member)

theorem createIndexText (exact : L.Exact) {i : CreateIndex (Spelled × Spelled)}
    (clean : ∀ s ∈ i.name :: i.table :: i.columns.map (·.name), L.clean s) (each : ∀ c ∈ i.filter, L.Like c.1 c.2) :
    L.Spellings (d.createIndexText (i.map Prod.fst)) (d.createIndexText (i.map Prod.snd)) := by
  intro p shown
  simp only [List.forall_mem_cons] at clean
  obtain ⟨named, table, columns⟩ := clean
  have guarded : ∀ s ∈ (if i.ifNotExists then d.indexGuard i.table i.name else none), L.clean s := by
    intro s found
    split at found
    · exact writes.indexGuard table named found
    · exact absurd found (by simp)
  have listed : L.clean ("ON " ++ d.quoteIdent i.table ++ " (" ++ ", ".intercalate (i.columns.map d.indexedText) ++
      ")") := by
    refine L.clean_append (L.clean_append (L.clean_append (L.clean_append (clean_text _ rfl) (writes.ident table))
      (clean_text _ rfl)) (clean_intercalate (clean_text _ rfl) fun s member => ?_)) (clean_text _ rfl)
    obtain ⟨c, inside, rfl⟩ := List.mem_map.mp member
    refine L.clean_append (writes.ident (columns _ (List.mem_map_of_mem inside))) ?_
    exact either (P := L.clean) (clean_text _ rfl) (clean_text [] rfl)
  have flag : ∀ (c : Prop) [Decidable c] {s : String}, L.clean s → L.clean (if c then s else "") :=
    fun c _ _ clean => either (P := L.clean) clean (clean_text [] rfl)
  simp only [Dialect.createIndexText, CreateIndex.map]
  refine clauses (.cons (phrase guarded) <| .cons (.some (fixed ?_)) <| .cons (.some (fixed (writes.ident named))) <|
    .cons (.some (fixed listed)) <| .cons ?_ .nil) p shown
  · exact L.clean_append (L.clean_append (L.clean_append (L.clean_append (clean_text _ rfl) (flag _ (clean_text _ rfl)))
      (flag _ (clean_text _ rfl))) (clean_text _ rfl)) (flag _ (clean_text _ rfl))
  · cases h : i.filter with
    | none => exact .none
    | some filter => exact .some fun p shown => clause (words _ _ rfl) (each filter h).expr _ (exact.inlined shown)

theorem enumText {name : String} {labels : List String} (clean : ∀ s ∈ name :: labels, L.clean s) :
    L.Spellings (d.enumText name labels) (d.enumText name labels) := by
  obtain ⟨named, each⟩ := List.forall_mem_cons.mp clean
  have listed : L.clean (", ".intercalate (labels.map d.quoteString)) := by
    refine clean_intercalate (clean_text _ rfl) fun s member => ?_
    obtain ⟨label, inside, rfl⟩ := List.mem_map.mp member
    exact writes.string (each label inside)
  unfold Dialect.enumText
  split
  · exact fixed (L.clean_append (L.clean_append (L.clean_append (L.clean_append (clean_text _ rfl)
      (writes.ident named)) (clean_text _ rfl)) listed) (clean_text _ rfl))
  · exact unsupported _

theorem setText (exact : L.Exact) {name : String} (clean : L.clean name) (each : ∀ c ∈ ps, L.Like c.1 c.2) :
    L.Spellings (d.setText name (ps.map Prod.fst)) (d.setText name (ps.map Prod.snd)) := by
  simp only [Dialect.setText, List.map_map]
  refine clauses (.cons (.some (fixed (L.clean_append (clean_text _ rfl) clean))) ?_)
  rw [List.forall₂_map_left_iff, List.forall₂_map_right_iff, List.forall₂_same]
  refine fun c member => .some ?_
  have like := each c member
  simp only [Dialect.setArgument, ← like.node.constant? exact.kept]
  split
  next name found => exact fixed (writes.ident (like.words name (Node.text_mem_words found)))
  next on found =>
    exact fixed (either (P := L.clean) (clean_text _ rfl) (clean_text _ rfl))
  next => exact fun p shown => like.expr _ (exact.inlined shown)

end Statements

theorem statementsText (each : ∀ c ∈ ps, L.Like c.1 c.2) :
    L.Spellings (Dialect.statementsText (ps.map Prod.fst)) (Dialect.statementsText (ps.map Prod.snd)) := by
  intro p shown
  simp only [Dialect.statementsText, List.mapM_map]
  exact (Agree.mapM fun c member => (each c member).statement p shown).bind fun _ _ here =>
    joined (mark _ _ rfl) (filtered here)

/-! ### Layers -/

section Layers

theorem exprText_slot (d : Dialect) {t : Shape (Spelled × Spelled)} (slot : t.isSlot = true) :
    d.exprText (t.map Prod.fst) = d.exprText (t.map Prod.snd) := by
  cases t with
  | constant | placeholder | parameter => rfl
  | _ => exact absurd slot (by simp [Shape.isSlot])

include writes

theorem constantExpr {value : Value} {type : DataType} (clean : ∀ s ∈ value.words, L.clean s)
    (slot : L.wording false (slotOf (.literal value) type) (slotOf (.literal value) type)) :
    L.Spellings (d.constantExpr value type) (d.constantExpr value type) := by
  intro p shown
  unfold Dialect.constantExpr
  split
  · cases found : d.literal value with
    | error e => exact L.fails e
    | ok text => exact said (writes.literal clean found)
  · exact slot

variable {t : Shape (Spelled × Spelled)} (clean : ∀ s ∈ t.words, L.clean s)
  (each : ∀ c ∈ t.children, L.Like c.1 c.2)
  (slots : t.isSlot → L.Spellings (d.exprText (t.map Prod.fst)) (d.exprText (t.map Prod.snd)))

include each clean

include slots in
theorem exprText : L.Spellings (d.exprText (t.map Prod.fst)) (d.exprText (t.map Prod.snd)) := by
  cases t with
  | constant | placeholder | parameter => exact slots rfl
  | column c =>
    simp only [Shape.words, List.forall_mem_cons] at clean
    refine fixed (either (P := L.clean) ?_ (L.clean_append
      (L.clean_append (writes.ident clean.1) (clean_text _ rfl)) ?_))
    all_goals exact either (P := L.clean) clean.2.1 (writes.ident clean.2.1)
  | binary op left right type =>
    exact binaryExpr d op (each left (by simp [Shape.children])) (each right (by simp [Shape.children]))
  | unary op operand type => exact unaryExpr d op (each operand (by simp [Shape.children]))
  | call routine arguments type => exact callExpr writes clean each
  | aggregate kind argument distinct type =>
    exact aggregateExpr writes kind distinct fun c member => each c (by simpa [Shape.children] using member)
  | groupAggregate label inGroup asQuery type =>
    exact groupAggregateExpr label (each inGroup (by simp [Shape.children])) (each asQuery (by simp [Shape.children]))
  | subquery kind operand query type =>
    exact subqueryExpr d kind (fun c member => each c (by simp_all [Shape.children]))
      (each query (by simp [Shape.children]))
  | select q =>
    have names : ∀ b ∈ q.columns, L.clean b.name := fun b member =>
      clean _ (List.mem_cons_of_mem _ (List.mem_map_of_mem member))
    exact fun p shown => (selectText writes each names p shown).bind fun _ _ here => parenthesized here
  | window source orderBy =>
    exact overExpr (each source (by simp [Shape.children])) fun c member =>
      each c.expr (List.mem_cons_of_mem _ (List.mem_map_of_mem member))
  | conditional branches otherwise type =>
    refine conditionalExpr (fun b member => ?_) fun c member => each c (by simp_all [Shape.children])
    have both : ∀ c ∈ b.children, L.Like c.1 c.2 := fun c inBranch =>
      each c (List.mem_append_left _ (List.mem_flatMap.mpr ⟨b, member, inBranch⟩))
    exact ⟨both _ (by simp [Branch.children]), both _ (by simp [Branch.children])⟩
  | _ => exact unsupported _

theorem sourceText : L.Spellings (d.sourceText (t.map Prod.fst)) (d.sourceText (t.map Prod.snd)) := by
  cases t with
  | table name label type =>
    simp only [Shape.words, List.forall_mem_cons] at clean
    exact fixed (L.clean_append (L.clean_append (writes.ident clean.1) (clean_text _ rfl)) (writes.ident clean.2.1))
  | select q =>
    obtain ⟨label, names⟩ := List.forall_mem_cons.mp clean
    have renamed : L.Mark (" AS " ++ d.quoteIdent q.label) := (mark _ _ rfl).before (writes.ident label)
    exact fun p shown => (selectText writes each (fun b member => names _ (List.mem_map_of_mem member)) p shown).bind
      fun _ _ here => closed renamed (parenthesized here)
  | join kind left right condition =>
    exact joinText writes kind (each left (by simp [Shape.children])) (each right (by simp [Shape.children]))
      fun c member => each c (by simp_all [Shape.children])
  | _ => exact unsupported _

theorem queryText : L.Spellings (d.queryText (t.map Prod.fst)) (d.queryText (t.map Prod.snd)) := by
  cases t with
  | select q =>
    exact selectText writes each fun b member => clean _ (List.mem_cons_of_mem _ (List.mem_map_of_mem member))
  | _ => exact unsupported _

include slots in
theorem statementText (exact : t.isVerbatim → L.Exact) :
    L.Spellings (d.statementText (t.map Prod.fst)) (d.statementText (t.map Prod.snd)) := by
  cases t with
  | select q =>
    exact selectText writes each fun b member => clean _ (List.mem_cons_of_mem _ (List.mem_map_of_mem member))
  | insert i => exact insertText writes clean each
  | update u => exact updateText writes clean each
  | delete owner label filter =>
    exact deleteText writes clean fun c member => each c (by simpa [Shape.children] using member)
  | createTable t =>
    exact createTableText writes (clean _ (List.mem_singleton.mpr rfl))
      (fun c member => (each c (List.mem_append_left _ member)).definition)
      fun c member => (each c (List.mem_append_right _ member)).constraint
  | alterTable owner actions =>
    exact alterTableText writes (clean _ (List.mem_singleton.mpr rfl)) fun c member => (each c member).action
  | createIndex i =>
    exact createIndexText writes (exact rfl) clean fun c member => each c (by simpa [Shape.children] using member)
  | enumDefinition name labels => exact enumText writes clean
  | setCommand name arguments => exact setText writes (exact rfl) (clean _ (List.mem_singleton.mpr rfl)) each
  | statements list => exact statementsText each
  | _ => exact exprText writes clean each slots

include slots in
/-- Texts of a layer correspond when those of its children do. -/
theorem spellLayer (exact : t.isVerbatim → L.Exact) :
    L.Like (d.spellLayer (t.map Prod.fst)) (d.spellLayer (t.map Prod.snd)) where
  node := by
    left
    show Node.look (.mk ((t.map Prod.fst).map (·.node))) = Node.look (.mk ((t.map Prod.snd).map (·.node)))
    simp only [Node.look, Node.shape_mk, Shape.map_map]
  words := by
    show ∀ s ∈ ((t.map Prod.fst).map (·.node)).words, L.clean s
    rw [Shape.words_map, Shape.words_map]
    exact clean
  expr := exprText writes clean each slots
  source := sourceText writes clean each
  query := queryText writes clean each
  statement := statementText writes clean each slots exact
  definition := by
    cases t with
    | columnDefinition name type constraints =>
      exact definitionText writes clean fun c member => (each c member).constraint
    | _ => exact unsupported _
  constraint := by
    cases t with
    | constraint name kind => exact constraintText writes (exact rfl) clean each
    | _ => exact unsupported _
  action := by
    cases t with
    | constraintAction change target =>
      have like := each target (by simp [Shape.children])
      exact actionText writes change like.constraint like.node.constraintName? fun name found =>
        like.words name (Node.name_mem_words found)
    | _ => exact unsupported _

end Layers

end Likeness

end QueryTree
