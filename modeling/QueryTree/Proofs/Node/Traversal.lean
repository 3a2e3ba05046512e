import QueryTree.Proofs.Node.Parts

/-! What replacing the children of a layer with an effect comes to.

`traverse` takes the children in the order in which `children` lists them. So what it does to a layer is known
from what it does to that list, and the effects may see a layer that was replaced before or replace it after.
-/

set_option autoImplicit false

namespace QueryTree

section Containers

variable {α β γ : Type} {m : Type → Type} [Monad m] [LawfulMonad m]

theorem map_listM (f : α → m β) (h : β → γ) (l : List α) :
    List.map h <$> l.mapM f = l.mapM fun a => h <$> f a := by
  induction l with
  | nil => simp
  | cons a rest ih => simp [← ih]

theorem map_optionM (f : α → m β) (h : β → γ) (o : Option α) :
    Option.map h <$> o.mapM f = o.mapM fun a => h <$> f a := by
  cases o <;> simp

omit [LawfulMonad m] in
theorem optionM_map (g : α → β) (f : β → m γ) (o : Option α) :
    (o.map g).mapM f = o.mapM fun a => f (g a) := by
  cases o <;> rfl

theorem toList_optionM (f : α → m β) (o : Option α) :
    Option.toList <$> o.mapM f = o.toList.mapM f := by
  cases o <;> simp

theorem keep_listM (f : α → m β) (l : List α) :
    (l.mapM fun a => (fun _ => a) <$> f a) = (fun _ => l) <$> l.mapM f := by
  induction l with
  | nil => simp
  | cons a rest ih => simp [ih]

theorem Binding.map_traverse (f : α → m β) (h : β → γ) (b : Binding α) :
    Binding.map h <$> b.traverse f = b.traverse fun a => h <$> f a := by
  simp [Binding.traverse, Binding.map]

theorem OrderItem.map_traverse (f : α → m β) (h : β → γ) (o : OrderItem α) :
    OrderItem.map h <$> o.traverse f = o.traverse fun a => h <$> f a := by
  simp [OrderItem.traverse, OrderItem.map]

theorem Branch.map_traverse (f : α → m β) (h : β → γ) (b : Branch α) :
    Branch.map h <$> b.traverse f = b.traverse fun a => h <$> f a := by
  simp [Branch.traverse, Branch.map]

theorem exprs_bindingsM (f : α → m β) (bs : List (Binding α)) :
    List.map (·.expr) <$> bs.mapM (·.traverse f) = bs.mapM fun b => f b.expr := by
  simp [map_listM, Binding.traverse]

theorem exprs_orderM (f : α → m β) (items : List (OrderItem α)) :
    List.map (·.expr) <$> items.mapM (·.traverse f) = items.mapM fun o => f o.expr := by
  simp [map_listM, OrderItem.traverse]

theorem children_branchesM (f : α → m β) (bs : List (Branch α)) :
    List.flatMap Branch.children <$> bs.mapM (·.traverse f) = (bs.flatMap Branch.children).mapM f := by
  induction bs with
  | nil => simp
  | cons b rest ih => simp [Branch.children, Branch.traverse, ← ih]

theorem keep_optionM (f : α → m β) (o : Option α) :
    (o.mapM fun a => (fun _ => a) <$> f a) = (fun _ => o) <$> o.mapM f := by
  cases o <;> simp

theorem Binding.keep_traverse (f : α → m β) (b : Binding α) :
    (b.traverse fun a => (fun _ => a) <$> f a) = (fun _ => b) <$> b.traverse f := by
  simp [Binding.traverse]

theorem OrderItem.keep_traverse (f : α → m β) (o : OrderItem α) :
    (o.traverse fun a => (fun _ => a) <$> f a) = (fun _ => o) <$> o.traverse f := by
  simp [OrderItem.traverse]

theorem Branch.keep_traverse (f : α → m β) (b : Branch α) :
    (b.traverse fun a => (fun _ => a) <$> f a) = (fun _ => b) <$> b.traverse f := by
  simp [Branch.traverse]

end Containers

namespace Shape

variable {α β γ : Type} {m : Type → Type} [Monad m] [LawfulMonad m]

theorem map_traverse (f : α → m β) (h : β → γ) (s : Shape α) :
    Shape.map h <$> s.traverse f = s.traverse fun a => h <$> f a := by
  cases s with
  | constraint name kind => cases kind <;> simp [traverse, map, ConstraintKind.traverse, ConstraintKind.map]
  | _ =>
    simp [traverse, map, Select.traverse, Select.map, Update.traverse, Update.map, Insert.traverse, Insert.map,
      CreateTable.traverse, CreateTable.map, CreateIndex.traverse, CreateIndex.map, ← map_listM, ← map_optionM,
      ← Binding.map_traverse, ← OrderItem.map_traverse, ← Branch.map_traverse]

theorem traverse_map (g : α → β) (f : β → m γ) (s : Shape α) :
    (s.map g).traverse f = s.traverse fun a => f (g a) := by
  cases s with
  | constraint name kind => cases kind <;> simp [traverse, map, ConstraintKind.traverse, ConstraintKind.map]
  | _ =>
    simp [traverse, map, Select.traverse, Select.map, Update.traverse, Update.map, Insert.traverse, Insert.map,
      CreateTable.traverse, CreateTable.map, CreateIndex.traverse, CreateIndex.map, Binding.traverse, Binding.map,
      OrderItem.traverse, OrderItem.map, Branch.traverse, Branch.map, optionM_map, Function.comp_def]

theorem children_traverse (f : α → m β) (s : Shape α) :
    children <$> s.traverse f = s.children.mapM f := by
  cases s with
  | constraint name kind => cases kind <;> simp [traverse, children, ConstraintKind.traverse, ConstraintKind.children]
  | _ =>
    simp [traverse, children, Select.traverse, Select.children, Update.traverse, Update.children,
      Insert.traverse, CreateTable.traverse, CreateIndex.traverse, ← exprs_bindingsM, ← exprs_orderM,
      ← children_branchesM, ← toList_optionM, Function.comp_def]

theorem keep_traverse (f : α → m β) (s : Shape α) :
    (s.traverse fun a => (fun _ => a) <$> f a) = (fun _ => s) <$> s.traverse f := by
  cases s with
  | constraint name kind => cases kind <;> simp [traverse, ConstraintKind.traverse]
  | _ =>
    simp [traverse, Select.traverse, Update.traverse, Insert.traverse, CreateTable.traverse,
      CreateIndex.traverse, keep_listM, keep_optionM, Binding.keep_traverse, OrderItem.keep_traverse, Branch.keep_traverse]

end Shape

/-! ### Effects on a state -/

section State

variable {α β γ σ τ : Type}

/-- Two computations give the same answer while the state of one is an image of the other's. -/
def Follows (image : σ → τ) (x : StateM σ β) (y : StateM τ β) : Prop :=
  ∀ s, (x s).1 = (y (image s)).1 ∧ image (x s).2 = (y (image s)).2

namespace Follows

variable {image : σ → τ}

theorem pure (b : β) : Follows image (Pure.pure b) (Pure.pure b) := fun _ => ⟨rfl, rfl⟩

theorem bind {x : StateM σ β} {y : StateM τ β} {f : β → StateM σ γ} {g : β → StateM τ γ}
    (first : Follows image x y) (rest : ∀ b, Follows image (f b) (g b)) :
    Follows image (x >>= f) (y >>= g) := by
  intro s
  obtain ⟨answer, state⟩ := first s
  show (f (x s).1 (x s).2).1 = (g (y (image s)).1 (y (image s)).2).1 ∧
    image (f (x s).1 (x s).2).2 = (g (y (image s)).1 (y (image s)).2).2
  rw [← answer, ← state]
  exact rest _ _

theorem map {x : StateM σ β} {y : StateM τ β} (h : β → γ) (first : Follows image x y) :
    Follows image (h <$> x) (h <$> y) := fun s => ⟨congrArg h (first s).1, (first s).2⟩

theorem listM {f : α → StateM σ β} {g : α → StateM τ β} {l : List α}
    (each : ∀ a ∈ l, Follows image (f a) (g a)) : Follows image (l.mapM f) (l.mapM g) := by
  induction l with
  | nil => simpa using pure []
  | cons a rest ih =>
    simp only [List.mapM_cons]
    exact bind (each a (by simp)) fun b =>
      bind (ih fun c member => each c (by simp [member])) fun _ => pure _

theorem optionM {f : α → StateM σ β} {g : α → StateM τ β} {o : Option α}
    (each : ∀ a ∈ o.toList, Follows image (f a) (g a)) : Follows image (o.mapM f) (o.mapM g) := by
  cases o with
  | none => exact pure none
  | some a => exact map some (each a (by simp))

theorem bindingsM {f : α → StateM σ β} {g : α → StateM τ β} {bs : List (Binding α)}
    (each : ∀ a ∈ bs.map (·.expr), Follows image (f a) (g a)) :
    Follows image (bs.mapM (·.traverse f)) (bs.mapM (·.traverse g)) :=
  listM fun b member => bind (each b.expr (List.mem_map_of_mem member)) fun _ => pure _

theorem orderM {f : α → StateM σ β} {g : α → StateM τ β} {items : List (OrderItem α)}
    (each : ∀ a ∈ items.map (·.expr), Follows image (f a) (g a)) :
    Follows image (items.mapM (·.traverse f)) (items.mapM (·.traverse g)) :=
  listM fun o member => bind (each o.expr (List.mem_map_of_mem member)) fun _ => pure _

theorem branchesM {f : α → StateM σ β} {g : α → StateM τ β} {bs : List (Branch α)}
    (each : ∀ a ∈ bs.flatMap Branch.children, Follows image (f a) (g a)) :
    Follows image (bs.mapM (·.traverse f)) (bs.mapM (·.traverse g)) := by
  refine listM fun b member => ?_
  have both : ∀ a ∈ b.children, Follows image (f a) (g a) :=
    fun a inBranch => each a (List.mem_flatMap.mpr ⟨b, member, inBranch⟩)
  exact bind (both b.condition (by simp [Branch.children])) fun _ =>
    bind (both b.result (by simp [Branch.children])) fun _ => pure _

theorem traverse {f : α → StateM σ β} {g : α → StateM τ β} {s : Shape α}
    (each : ∀ a ∈ s.children, Follows image (f a) (g a)) :
    Follows image (s.traverse f) (s.traverse g) := by
  cases s with
  | table | column | constant | placeholder | parameter | enumDefinition => exact pure _
  | select q =>
    -- The parts of a layer are taken in the order in which its children are listed.
    simp only [Shape.children, Select.children, List.forall_mem_append] at each
    obtain ⟨⟨⟨⟨⟨⟨columns, source⟩, filter⟩, groupBy⟩, orderBy⟩, skip⟩, take⟩ := each
    refine bind (bind (bindingsM columns) fun _ => bind (optionM source) fun _ => bind (optionM filter) fun _ =>
      bind (listM groupBy) fun _ => bind (orderM orderBy) fun _ => bind (optionM skip) fun _ =>
      bind (optionM take) fun _ => pure _) fun _ => pure _
  | join kind left right condition =>
    simp only [Shape.children, List.forall_mem_cons] at each
    obtain ⟨left, right, condition⟩ := each
    exact bind left fun _ => bind right fun _ => bind (optionM condition) fun _ => pure _
  | aggregate kind argument distinct type => exact bind (optionM each) fun _ => pure _
  | groupAggregate label inGroup asQuery type =>
    simp only [Shape.children, List.forall_mem_cons] at each
    exact bind each.1 fun _ => bind each.2.1 fun _ => pure _
  | subquery kind operand query type =>
    simp only [Shape.children, List.forall_mem_append, List.forall_mem_singleton] at each
    exact bind (optionM each.1) fun _ => bind each.2 fun _ => pure _
  | call routine arguments type => exact bind (listM each) fun _ => pure _
  | window source orderBy =>
    simp only [Shape.children, List.forall_mem_cons] at each
    exact bind each.1 fun _ => bind (orderM each.2) fun _ => pure _
  | binary op left right type =>
    simp only [Shape.children, List.forall_mem_cons] at each
    exact bind each.1 fun _ => bind each.2.1 fun _ => pure _
  | unary op operand type => exact bind (each _ (List.mem_singleton.mpr rfl)) fun _ => pure _
  | conditional branches otherwise type =>
    simp only [Shape.children, List.forall_mem_append] at each
    exact bind (branchesM each.1) fun _ => bind (optionM each.2) fun _ => pure _
  | tuple elements => exact bind (listM each) fun _ => pure _
  | object entity keys => exact bind (bindingsM each) fun _ => pure _
  | insert i => exact bind (bind (listM each) fun _ => pure _) fun _ => pure _
  | update u =>
    simp only [Shape.children, Update.children, List.forall_mem_append] at each
    exact bind (bind (bindingsM each.1) fun _ => bind (optionM each.2) fun _ => pure _) fun _ => pure _
  | delete owner label filter => exact bind (optionM each) fun _ => pure _
  | createTable t =>
    simp only [Shape.children, List.forall_mem_append] at each
    exact bind (bind (listM each.1) fun _ => bind (listM each.2) fun _ => pure _) fun _ => pure _
  | alterTable owner actions => exact bind (listM each) fun _ => pure _
  | columnDefinition name type constraints => exact bind (listM each) fun _ => pure _
  | constraint name kind =>
    cases kind with
    | default value => exact bind (bind (each _ (List.mem_singleton.mpr rfl)) fun _ => pure _) fun _ => pure _
    | _ => exact pure _
  | constraintAction change target => exact bind (each _ (List.mem_singleton.mpr rfl)) fun _ => pure _
  | createIndex i => exact bind (bind (optionM each) fun _ => pure _) fun _ => pure _
  | setCommand name arguments => exact bind (listM each) fun _ => pure _
  | statements list => exact bind (listM each) fun _ => pure _

end Follows

/-- A computation keeps a property of the state, and its answers have one of their own. -/
def Ensures (inv : σ → Prop) (P : β → Prop) (x : StateM σ β) : Prop := ∀ s, inv s → P (x s).1 ∧ inv (x s).2

namespace Ensures

variable {inv : σ → Prop}

theorem pure {P : β → Prop} {b : β} (holds : P b) : Ensures inv P (Pure.pure b) := fun _ start => ⟨holds, start⟩

theorem bind {P : β → Prop} {Q : γ → Prop} {x : StateM σ β} {f : β → StateM σ γ} (first : Ensures inv P x)
    (rest : ∀ b, P b → Ensures inv Q (f b)) : Ensures inv Q (x >>= f) := by
  intro s start
  obtain ⟨answer, kept⟩ := first s start
  exact rest _ answer _ kept

theorem listM {P : β → Prop} {f : α → StateM σ β} {l : List α} (each : ∀ a ∈ l, Ensures inv P (f a)) :
    Ensures inv (fun r => ∀ b ∈ r, P b) (l.mapM f) := by
  induction l with
  | nil => simpa using pure (b := ([] : List β)) (by simp)
  | cons a rest ih =>
    simp only [List.mapM_cons]
    refine bind (each a (by simp)) fun b here => ?_
    exact bind (ih fun c member => each c (by simp [member])) fun r later => pure (by simpa using ⟨here, later⟩)

theorem bindingsM {P : β → Prop} {f : α → StateM σ β} {bs : List (Binding α)}
    (each : ∀ a ∈ bs.map (·.expr), Ensures inv P (f a)) :
    Ensures inv (fun r => r.map (·.name) = bs.map (·.name) ∧ ∀ b ∈ r, P b.expr) (bs.mapM (·.traverse f)) := by
  induction bs with
  | nil => simpa using pure (b := ([] : List (Binding β))) (by simp)
  | cons a rest ih =>
    simp only [List.mapM_cons]
    have here : Ensures inv (fun b => b.name = a.name ∧ P b.expr) (a.traverse f) :=
      bind (each a.expr (by simp)) fun e holds => pure ⟨rfl, holds⟩
    refine bind here fun b ⟨sameName, holds⟩ => ?_
    refine bind (ih fun c member => each c (List.mem_cons_of_mem _ member)) fun r ⟨sameNames, later⟩ => pure ?_
    exact ⟨by simp [sameName, sameNames], by simpa using ⟨holds, later⟩⟩

theorem orderM {P : β → Prop} {f : α → StateM σ β} {items : List (OrderItem α)}
    (each : ∀ a ∈ items.map (·.expr), Ensures inv P (f a)) :
    Ensures inv (fun r => ∀ o ∈ r, P o.expr) (items.mapM (·.traverse f)) :=
  listM fun o member => bind (each o.expr (List.mem_map_of_mem member)) fun _ holds => pure holds

theorem optionM {P : β → Prop} {f : α → StateM σ β} {o : Option α} (each : ∀ a ∈ o, Ensures inv P (f a)) :
    Ensures inv (fun r => ∀ b ∈ r, P b) (o.mapM f) := by
  cases o with
  | none => exact pure (by simp)
  | some a => exact bind (each a rfl) fun b holds => pure (by simpa using holds)

end Ensures

/-- Each child beside what takes its place, when the effects start from `x`. -/
def Shape.replaced (f : α → StateM σ β) (s : Shape α) (x : σ) : Shape (α × β) :=
  (s.traverse (fun a => Prod.mk a <$> f a) x).1

namespace Shape

variable (f : α → StateM σ β) (s : Shape α) (x : σ)

theorem replaced_fst : (s.replaced f x).map Prod.fst = s := by
  have kept := keep_traverse f s
  have mapped := map_traverse (fun a => Prod.mk a <$> f a) Prod.fst s
  simp only [← comp_map, Function.comp_def] at mapped
  exact congrArg (fun c => (c x).1) (mapped.trans kept)

theorem replaced_snd : (s.replaced f x).map Prod.snd = (s.traverse f x).1 := by
  have mapped := map_traverse (fun a => Prod.mk a <$> f a) Prod.snd s
  simp only [← comp_map, Function.comp_def, id_map'] at mapped
  exact congrArg (fun c => (c x).1) mapped

end Shape

/-- Where every effect moves the state along `before`, so does a list of them, and each answer comes from a
state before the last. -/
theorem run_listM (before : σ → σ → Prop) (stays : ∀ x, before x x)
    (trans : ∀ {x y z}, before x y → before y z → before x z) (f : α → StateM σ β) :
    ∀ (l : List α) (_ : ∀ a ∈ l, ∀ x, before x (f a x).2) (x : σ), before x (l.mapM f x).2 ∧
      ∀ p ∈ (l.mapM (fun a => Prod.mk a <$> f a) x).1,
        p.1 ∈ l ∧ ∃ y, before x y ∧ p.2 = (f p.1 y).1 ∧ before (f p.1 y).2 (l.mapM f x).2 := by
  intro l
  induction l with
  | nil => exact fun _ x => ⟨stays x, fun p (member : p ∈ []) => absurd member List.not_mem_nil⟩
  | cons a rest ih =>
    intro moves x
    have here := moves a (by simp) x
    -- The rest starts in the state that the first element leaves.
    obtain ⟨along, members⟩ := ih (fun b member => moves b (by simp [member])) (f a x).2
    have split : ((a :: rest).mapM f x).2 = (rest.mapM f (f a x).2).2 := by simp only [List.mapM_cons]; rfl
    have listed : ((a :: rest).mapM (fun a => Prod.mk a <$> f a) x).1 =
        (a, (f a x).1) :: (rest.mapM (fun a => Prod.mk a <$> f a) (f a x).2).1 := by
      simp only [List.mapM_cons]; rfl
    rw [split, listed]
    refine ⟨trans here along, fun p member => ?_⟩
    rcases List.mem_cons.mp member with rfl | member
    · exact ⟨by simp, x, stays x, rfl, along⟩
    · obtain ⟨inRest, y, start, answer, finish⟩ := members p member
      exact ⟨by simp [inRest], y, trans here start, answer, finish⟩

/-- The same of the children of a layer. -/
theorem Shape.run_traverse (before : σ → σ → Prop) (stays : ∀ x, before x x)
    (trans : ∀ {x y z}, before x y → before y z → before x z) (f : α → StateM σ β) (s : Shape α)
    (moves : ∀ a ∈ s.children, ∀ x, before x (f a x).2) (x : σ) : before x (s.traverse f x).2 ∧
      ∀ p ∈ (s.replaced f x).children, p.1 ∈ s.children ∧
        ∃ y, before x y ∧ p.2 = (f p.1 y).1 ∧ before (f p.1 y).2 (s.traverse f x).2 := by
  have state : (s.traverse f x).2 = (s.children.mapM f x).2 :=
    congrArg (fun c => (c x).2) (children_traverse f s)
  have members : (s.replaced f x).children = (s.children.mapM (fun a => Prod.mk a <$> f a) x).1 :=
    congrArg (fun c => (c x).1) (children_traverse (fun a => Prod.mk a <$> f a) s)
  rw [state, members]
  exact run_listM before stays trans f s.children moves x

theorem Ensures.traverse {inv : σ → Prop} {P : β → Prop} {f : α → StateM σ β} {s : Shape α}
    (each : ∀ a ∈ s.children, Ensures inv P (f a)) :
    Ensures inv (fun r => r.bare = s.bare ∧ ∀ b ∈ r.children, P b) (s.traverse f) := by
  intro x start
  obtain ⟨finish, members⟩ := Shape.run_traverse (fun x y => inv x → inv y) (fun _ same => same)
    (fun first second same => second (first same)) f s (fun a member x start => (each a member x start).2) x
  refine ⟨⟨?_, fun b member => ?_⟩, finish start⟩
  · rw [← Shape.replaced_snd, Shape.bare_map, ← Shape.bare_map Prod.fst, Shape.replaced_fst]
  · rw [← Shape.replaced_snd, Shape.children_map] at member
    obtain ⟨p, inPairs, rfl⟩ := List.mem_map.mp member
    obtain ⟨inLayer, y, reached, answer, _⟩ := members p inPairs
    rw [answer]
    exact (each p.1 inLayer y (reached start)).1

section Both

variable (f : α → StateM σ β) (g : α → StateM τ γ)

/-- Two effects side by side, each with its own state. -/
def sideBySide (a : α) : StateM (σ × τ) (β × γ) := fun p =>
  (((f a p.1).1, (g a p.2).1), ((f a p.1).2, (g a p.2).2))

theorem Shape.traverse_left (s : Shape α) (x : σ) (y : τ) :
    (s.traverse (sideBySide f g) (x, y)).1.map Prod.fst = (s.traverse f x).1 ∧
      (s.traverse (sideBySide f g) (x, y)).2.1 = (s.traverse f x).2 := by
  have follows : Follows Prod.fst (Shape.map Prod.fst <$> s.traverse (sideBySide f g)) (s.traverse f) := by
    rw [map_traverse]
    exact .traverse fun a _ p => ⟨rfl, rfl⟩
  exact follows (x, y)

theorem Shape.traverse_right (s : Shape α) (x : σ) (y : τ) :
    (s.traverse (sideBySide f g) (x, y)).1.map Prod.snd = (s.traverse g y).1 ∧
      (s.traverse (sideBySide f g) (x, y)).2.2 = (s.traverse g y).2 := by
  have follows : Follows Prod.snd (Shape.map Prod.snd <$> s.traverse (sideBySide f g)) (s.traverse g) := by
    rw [map_traverse]
    exact .traverse fun a _ p => ⟨rfl, rfl⟩
  exact follows (x, y)

variable {f g}

/-- Two effects that give related answers in related states, on the same layer. -/
theorem Shape.traverse_both (inv : σ → τ → Prop) (R : β → γ → Prop) {s : Shape α}
    (each : ∀ a ∈ s.children, ∀ x y, inv x y → R (f a x).1 (g a y).1 ∧ inv (f a x).2 (g a y).2)
    {x : σ} {y : τ} (start : inv x y) :
    ∃ r : Shape (β × γ), r.map Prod.fst = (s.traverse f x).1 ∧ r.map Prod.snd = (s.traverse g y).1 ∧
      (∀ c ∈ r.children, R c.1 c.2) ∧ inv (s.traverse f x).2 (s.traverse g y).2 := by
  obtain ⟨left, leftState⟩ := traverse_left f g s x y
  obtain ⟨right, rightState⟩ := traverse_right f g s x y
  obtain ⟨finish, members⟩ := run_traverse (fun (p q : σ × τ) => inv p.1 p.2 → inv q.1 q.2) (fun _ same => same)
    (fun first second same => second (first same)) (sideBySide f g) s
    (fun a member p related => (each a member p.1 p.2 related).2) (x, y)
  refine ⟨_, left, right, fun c member => ?_, leftState ▸ rightState ▸ finish start⟩
  rw [← replaced_snd, children_map] at member
  obtain ⟨p, inPairs, rfl⟩ := List.mem_map.mp member
  obtain ⟨inLayer, state, reached, answer, _⟩ := members p inPairs
  rw [answer]
  exact (each p.1 inLayer state.1 state.2 (reached start)).1

end Both

end State

end QueryTree
