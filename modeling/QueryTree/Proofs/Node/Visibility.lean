import Mathlib.Data.List.Pairwise
import QueryTree.Proofs.Node.Weights

/-! What may be referred to, and where.

The expressions of a select see what the select reads from and what is visible around it. A source sees what stands to
its left. An aggregate over a group has a form inside the group, which sees what the expressions of the group see. Where
labels are distinct and everything refers to what is visible, references go in no circle: what a label stands for is
made of labels that stand for something else, and these of others, until there is nothing left to refer to.
-/

set_option autoImplicit false

namespace QueryTree

/-- A label that may be referred to, and what may be referred to in the select that goes by it. -/
inductive Visible where
  | mk (label : String) (inside : List Visible)

namespace Visible

def label : Visible → String
  | mk label _ => label

def inside : Visible → List Visible
  | mk _ inside => inside

end Visible

/-- A node somewhere in a tree: what is visible there, and in how many forms of aggregates over groups it is. -/
structure Site (α : Type) where
  depth : Nat
  around : List Visible
  node : α

def Site.map {α β : Type} (f : α → β) (p : Site α) : Site β :=
  { depth := p.depth, around := p.around, node := f p.node }

namespace Shape

def shows : Shape (List Visible → List Visible) → List Visible → List Visible
  | .table _ label _, _ => [⟨label, []⟩]
  | .select q, around => [⟨q.label, (q.source.map (· around)).getD [] ++ around⟩]
  | .join _ left right _, around => left around ++ right (left around ++ around)
  | _, _ => []

end Shape

/-- What a source lets be seen where it is read. -/
def Node.shows : Node → List Visible → List Visible := Node.fold Shape.shows

namespace Shape

variable {α β : Type}

/-- The children of a layer, each in its site. -/
def sites (node : α → Node) (depth : Nat) (around : List Visible) : Shape α → List (Site α)
  | .select q =>
    let inside := (q.source.map fun s => (node s).shows around).getD [] ++ around
    q.source.toList.map (⟨depth, around, ·⟩) ++ q.held.map (⟨depth, inside, ·⟩)
  | .join _ left right condition =>
    let beside := (node left).shows around ++ around
    ⟨depth, around, left⟩ :: ⟨depth, beside, right⟩ ::
      condition.toList.map (⟨depth, (node right).shows beside ++ beside, ·⟩)
  | .groupAggregate label inGroup asQuery _ =>
    let inside := ((around.find? (·.label == label)).map Visible.inside).getD []
    [⟨depth + 1, inside, inGroup⟩, ⟨depth, around, asQuery⟩]
  | s => s.children.map (⟨depth, around, ·⟩)

theorem sites_map (node : β → Node) (depth : Nat) (around : List Visible) (f : α → β) (s : Shape α) :
    (s.map f).sites node depth around = (s.sites (fun a => node (f a)) depth around).map (Site.map f) := by
  have rest (s : Shape α) : (s.map f).children.map (Site.mk depth around) =
      (s.children.map (Site.mk depth around)).map (Site.map f) := by
    rw [children_map, List.map_map, List.map_map]
    rfl
  cases s with
  | select q =>
    have reads : (q.map f).source = q.source.map f := rfl
    simp only [map, sites, Select.held_map, reads, Shape.toList_map, Option.map_map, Function.comp_def,
      List.map_append, List.map_map, Site.map]
  | join kind left right condition =>
    simp only [map, sites, Shape.toList_map, List.map_cons, List.map_map, Function.comp_def, Site.map]
  | groupAggregate label inGroup asQuery type => rfl
  | _ => exact rest _

/-- Every child has one site. -/
theorem sites_perm (depth : Nat) (around : List Visible) (s : Shape Node) :
    ((s.sites id depth around).map Site.node).Perm s.children := by
  cases s with
  | select q => simpa [sites, children, Function.comp_def] using (Select.children_perm q).symm
  | join kind left right condition => simp [sites, children, Function.comp_def]
  | groupAggregate label inGroup asQuery type => exact .refl _
  | _ => simp [sites, Function.comp_def]

theorem site_child {depth : Nat} {around : List Visible} {s : Shape Node} {x : Site Node}
    (member : x ∈ s.sites id depth around) : x.node ∈ s.children :=
  (sites_perm depth around s).subset (List.mem_map_of_mem member)

theorem site_depth {depth : Nat} {around : List Visible} {s : Shape Node} {x : Site Node}
    (member : x ∈ s.sites id depth around) : depth ≤ x.depth := by
  cases s <;> simp only [sites, List.mem_append, List.mem_cons, List.mem_map, List.not_mem_nil, or_false] at member <;>
    grind

end Shape

namespace Node

variable {n : Node} {p x : Site Node} {label : String}

theorem shows_select (q : Select Node) (around : List Visible) :
    (Node.select q).shows around = [⟨q.label, ((q.source.map fun s => s.shows around).getD []) ++ around⟩] := by
  refine (congrFun (fold_mk Shape.shows _) around).trans ?_
  simp only [Shape.map, Shape.shows, Select.map, Option.map_map, Function.comp_def]
  rfl

theorem shows_join (kind : JoinKind) (left right : Node) (condition : Option Node) (around : List Visible) :
    (Node.join kind left right condition).shows around =
      left.shows around ++ right.shows (left.shows around ++ around) := congrFun (fold_mk Shape.shows _) around

/-- The sites in a tree, the tree's own one first. -/
def sites : Node → Nat → List Visible → List (Site Node) :=
  para fun s depth around => ⟨depth, around, .mk (s.map Prod.fst)⟩ ::
    (s.sites Prod.fst depth around).flatMap fun p => p.node.2 p.depth p.around

theorem sites_mk (s : Shape Node) (depth : Nat) (around : List Visible) : (Node.mk s).sites depth around =
    ⟨depth, around, .mk s⟩ :: (s.sites id depth around).flatMap fun p => p.node.sites p.depth p.around := by
  unfold sites
  rw [para_mk, Shape.map_map, Shape.map_id, Shape.sites_map, List.flatMap_map]
  rfl

theorem sites_subtrees (n : Node) (depth : Nat) (around : List Visible) :
    ((n.sites depth around).map Site.node).Perm n.subtrees := by
  induction n using inductNode generalizing depth around with
  | step s ih =>
    rw [sites_mk, subtrees_mk, List.map_cons, List.map_flatMap]
    refine .cons _ ((List.Perm.flatMap_left _ fun x member => ih x.node (Shape.site_child member) _ _).trans ?_)
    rw [← List.flatMap_map Site.node subtrees]
    exact (Shape.sites_perm depth around s).flatMap_right _

/-- What holds at the top and, wherever it holds, for the children, holds everywhere. -/
theorem sites_induct {P : Site Node → Prop} {depth : Nat} {around : List Visible} (top : P ⟨depth, around, n⟩)
    (down : ∀ p ∈ n.sites depth around, P p → ∀ x ∈ p.node.shape.sites id p.depth p.around, P x) :
    ∀ p ∈ n.sites depth around, P p := by
  induction n using inductNode generalizing depth around with
  | step s ih =>
    rw [sites_mk] at down ⊢
    obtain ⟨first, rest⟩ := List.forall_mem_cons.mp down
    refine List.forall_mem_cons.mpr ⟨top, List.forall_mem_flatMap.mpr fun x child => ?_⟩
    exact ih x.node (Shape.site_child child) (first top x child) fun p inside =>
      rest p (List.mem_flatMap.mpr ⟨x, child, inside⟩)

theorem sites_child {depth : Nat} {around : List Visible} (member : p ∈ n.sites depth around)
    (child : x ∈ p.node.shape.sites id p.depth p.around) : x ∈ n.sites depth around := by
  induction n using inductNode generalizing depth around with
  | step s ih =>
    rw [sites_mk] at member ⊢
    refine List.mem_cons_of_mem _ ?_
    rcases List.mem_cons.mp member with rfl | below
    · obtain ⟨d, e, ⟨s'⟩⟩ := x
      refine List.mem_flatMap.mpr ⟨_, child, ?_⟩
      rw [sites_mk]
      exact List.mem_cons_self
    · obtain ⟨y, between, below⟩ := List.mem_flatMap.mp below
      exact List.mem_flatMap.mpr ⟨y, between, ih y.node (Shape.site_child between) below⟩

/-- Where labels are distinct, a label tells the site of what goes by it. -/
theorem site_unique (distinct : n.labels.Nodup) {depth : Nat} {around : List Visible}
    (first : p ∈ n.sites depth around) (second : x ∈ n.sites depth around)
    (named : p.node.sourceLabel? = some label) (same : x.node.sourceLabel? = some label) : p = x := by
  have perm := (sites_subtrees n depth around).filterMap sourceLabel?
  rw [List.filterMap_map] at perm
  have apart := List.pairwise_filterMap.mp (perm.nodup_iff.mpr distinct)
  have symmetric : Std.Symm fun p x : Site Node => ∀ l, (sourceLabel? ∘ Site.node) p = some l →
      ∀ l', (sourceLabel? ∘ Site.node) x = some l' → l ≠ l' :=
    ⟨fun _ _ apart l ofX l' ofP equal => apart l' ofP l ofX equal.symm⟩
  by_contra other
  exact apart.forall first second other label named label same rfl

end Node

/-- What the expressions see in what goes by the label of the site. -/
def Site.inside (p : Site Node) : List Visible :=
  match p.node with
  | .select q => (q.source.map fun s => s.shows p.around).getD [] ++ p.around
  | _ => []

/-- What is referred to is visible. What no part of the tree goes by may be referred to anywhere. -/
def Site.fits (labels : List String) (p : Site Node) : Bool :=
  match p.node with
  | .column c => p.around.any (·.label == c.label) || !labels.contains c.label
  | .groupAggregate label _ _ _ => p.around.any (·.label == label)
  | _ => true

namespace Node

/-- All that is referred to is visible where that is done. -/
def inSight (n : Node) : Bool := (n.sites 0 []).all (Site.fits n.labels)

/-! ### Where labels come from -/

variable {n : Node} {p x : Site Node} {label : String} {depth depth' : Nat} {around : List Visible}

/-- Every label that is visible is declared at a site in the tree, in no more forms. -/
inductive Declared (n : Node) (depth : Nat) : List Visible → Prop where
  | each {around : List Visible}
    (here : ∀ v ∈ around, ∃ p ∈ n.sites 0 [],
      p.depth ≤ depth ∧ p.node.sourceLabel? = some v.label ∧ p.inside = v.inside)
    (inside : ∀ v ∈ around, Declared n depth v.inside) : Declared n depth around

theorem Declared.mono (declared : Declared n depth around) (deeper : depth ≤ depth') : Declared n depth' around := by
  induction declared with
  | each here inside ih =>
    exact .each (fun v member => (here v member).imp fun p ⟨site, less, rest⟩ => ⟨site, less.trans deeper, rest⟩) ih

theorem Declared.nil : Declared n depth [] := .each (by simp) (by simp)

theorem Declared.append {more : List Visible} (first : Declared n depth around) (second : Declared n depth more) :
    Declared n depth (around ++ more) := by
  obtain ⟨here, inside⟩ := first
  obtain ⟨here', inside'⟩ := second
  exact .each (List.forall_mem_append.mpr ⟨here, here'⟩) (List.forall_mem_append.mpr ⟨inside, inside'⟩)

theorem Declared.single (site : p ∈ n.sites 0 []) (named : p.node.sourceLabel? = some label)
    (inside : Declared n p.depth p.inside) : Declared n p.depth [⟨label, p.inside⟩] :=
  .each (List.forall_mem_singleton.mpr ⟨p, site, Nat.le_refl _, named, rfl⟩) (List.forall_mem_singleton.mpr inside)

theorem Declared.shows {m : Node} (site : ⟨depth, around, m⟩ ∈ n.sites 0 []) (declared : Declared n depth around) :
    Declared n depth (m.shows around) := by
  induction m using inductNode generalizing around with
  | step s ih =>
    cases s with
    | table name label type => exact .single (p := ⟨depth, around, .table name label type⟩) site rfl .nil
    | select q =>
      rw [shows_select]
      refine .single (p := ⟨depth, around, .select q⟩) site rfl (.append ?_ declared)
      cases reads : q.source with
      | none => exact .nil
      | some source =>
        refine ih source (Select.source_child reads) (sites_child site ?_) declared
        exact List.mem_append_left _ (by simp [reads])
    | join kind left right condition =>
      rw [shows_join]
      have first := ih left (by simp [Shape.children]) (sites_child site List.mem_cons_self) declared
      have second := ih right (by simp [Shape.children])
        (sites_child site (List.mem_cons_of_mem _ List.mem_cons_self)) (first.append declared)
      exact first.append second
    | _ => exact .nil

theorem Declared.inside {q : Select Node} (site : ⟨depth, around, .select q⟩ ∈ n.sites 0 [])
    (declared : Declared n depth around) : Declared n depth (Site.inside ⟨depth, around, .select q⟩) := by
  refine .append ?_ declared
  cases reads : q.source with
  | none => exact .nil
  | some source => exact .shows (sites_child site (List.mem_append_left _ (by simp [reads]))) declared

theorem declared_sites : ∀ p ∈ n.sites 0 [], Declared n p.depth p.around := by
  refine sites_induct .nil fun p site declared x child => ?_
  obtain ⟨depth, around, ⟨s⟩⟩ := p
  cases s with
  | select q =>
    rcases List.mem_append.mp child with source | held
    · obtain ⟨c, -, rfl⟩ := List.mem_map.mp source
      exact declared
    · obtain ⟨c, -, rfl⟩ := List.mem_map.mp held
      exact .inside site declared
  | join kind left right condition =>
    have first := declared.shows (sites_child site List.mem_cons_self)
    have second := (first.append declared).shows (sites_child site (List.mem_cons_of_mem _ List.mem_cons_self))
    rcases List.mem_cons.mp child with rfl | child
    · exact declared
    · rcases List.mem_cons.mp child with rfl | child
      · exact first.append declared
      · obtain ⟨c, -, rfl⟩ := List.mem_map.mp child
        exact second.append (first.append declared)
  | groupAggregate label inGroup asQuery type =>
    rcases List.mem_pair.mp child with rfl | rfl
    · cases found : around.find? (·.label == label) with
      | none => simpa [found] using Declared.nil
      | some v =>
        obtain ⟨-, inside⟩ := declared
        -- What stands in the form sees what its group saw, one level further inside.
        simpa [found] using (inside v (List.mem_of_find?_eq_some found)).mono (Nat.le_succ depth)
    · exact declared
  | _ =>
    obtain ⟨c, -, rfl⟩ := List.mem_map.mp child
    exact declared

/-- A group is visible to an aggregate over it, and what stands inside the group sees what the expressions there see. -/
theorem form_site (sight : n.inSight = true) {inGroup asQuery : Node} {type : DataType}
    (site : ⟨depth, around, .groupAggregate label inGroup asQuery type⟩ ∈ n.sites 0 []) :
    ∃ p ∈ n.sites 0 [], p.node.sourceLabel? = some label ∧ p.depth ≤ depth ∧
      ⟨depth + 1, p.inside, inGroup⟩ ∈ n.sites 0 [] := by
  have visible : around.any (·.label == label) = true := List.all_eq_true.mp sight _ site
  obtain ⟨v, found⟩ := Option.isSome_iff_exists.mp (List.find?_isSome.mpr (List.any_eq_true.mp visible))
  obtain ⟨here, -⟩ := declared_sites _ site
  have own : v.label = label := by simpa using List.find?_some found
  obtain ⟨p, group, less, named, inside⟩ := here v (List.mem_of_find?_eq_some found)
  refine ⟨p, group, named.trans (congrArg some own), less, sites_child site ?_⟩
  simp [Shape.sites, found, inside]

end Node

/-! ### What a label stands for -/

/-- What a layer has a label stand for. -/
def Shape.behind (label : String) : Shape Node → List Node
  | .select q =>
    if q.label = label then (q.columns.filter fun b => !b.isWildcard).map (·.expr) ++ q.source.toList else []
  | .groupAggregate group inGroup _ _ => if group = label then [inGroup] else []
  | _ => []

namespace Node

variable {n : Node} {p x : Site Node} {label : String} {depth depth' : Nat} {around : List Visible}

/-- What a label stands for, wherever in the tree that is. -/
def behind (n : Node) (label : String) : List Node := n.subtrees.flatMap fun m => m.shape.behind label

/-- The label is found in what the other one stands for. -/
def Behind (n : Node) (inner outer : String) : Prop := ∃ m ∈ n.behind outer, inner ∈ m.allLabels

theorem allLabels_mk (s : Shape Node) : (Node.mk s).allLabels = s.label?.toList ++ s.children.flatMap allLabels := by
  unfold allLabels
  rw [subtrees_mk, List.filterMap_cons, List.filterMap_flatMap, shape_mk]
  cases s.label? <;> rfl

theorem declared_label (declared : label ∈ n.labels) : label ∈ n.allLabels := by
  obtain ⟨⟨s⟩, member, named⟩ := List.mem_filterMap.mp declared
  refine List.mem_filterMap.mpr ⟨_, member, ?_⟩
  cases s <;> cases named <;> rfl

/-- No label in the tree is among those it stands for, nor among those that these stand for. -/
def Grounded (n m : Node) : Prop := ∀ label ∈ m.allLabels, Acc n.Behind label

theorem grounded_mk {s : Shape Node} : Grounded n (.mk s) ↔
    (∀ label ∈ s.label?, Acc n.Behind label) ∧ ∀ c ∈ s.children, Grounded n c := by
  simp only [Grounded, allLabels_mk, List.forall_mem_append, List.forall_mem_flatMap, Option.mem_toList, Option.mem_def]

theorem mem_site {m : Node} : m ∈ n.subtrees ↔ ∃ p ∈ n.sites 0 [], p.node = m :=
  (sites_subtrees n 0 []).mem_iff.symm.trans List.mem_map

/-- What a label stands for is held by what goes by it, or is a form further inside that sees what the expressions there
see. -/
theorem behind_site (sight : n.inSight = true) {m : Node} (stands : m ∈ n.behind label) :
    ∃ p ∈ n.sites 0 [], p.node.sourceLabel? = some label ∧
      (m ∈ p.node.shape.children ∨ ∃ depth, p.depth < depth ∧ ⟨depth, p.inside, m⟩ ∈ n.sites 0 []) := by
  obtain ⟨outer, member, stands⟩ := List.mem_flatMap.mp stands
  obtain ⟨⟨depth, around, ⟨s⟩⟩, placed, rfl⟩ := mem_site.mp member
  cases s with
  | select q =>
    simp only [shape_mk, Shape.behind] at stands
    split at stands
    · rename_i own
      refine ⟨_, placed, congrArg some own, .inl ?_⟩
      rcases List.mem_append.mp stands with column | source
      · obtain ⟨b, found, rfl⟩ := List.mem_map.mp column
        exact Select.column_child (List.mem_filter.mp found).1
      · exact Select.source_child (Option.mem_toList.mp source)
    · exact absurd stands List.not_mem_nil
  | groupAggregate group inGroup asQuery type =>
    simp only [shape_mk, Shape.behind] at stands
    split at stands
    · rename_i own
      obtain rfl := List.mem_singleton.mp stands
      -- The form belongs to a label further out, and stands deeper than what bears it.
      obtain ⟨p, site, named, less, form⟩ := form_site sight placed
      exact ⟨p, site, named.trans (congrArg some own), .inr ⟨_, Nat.lt_succ_of_le less, form⟩⟩
    · exact absurd stands List.not_mem_nil
  | _ => exact absurd stands List.not_mem_nil

theorem acc_declared (sight : n.inSight = true) (distinct : n.labels.Nodup) (site : p ∈ n.sites 0 [])
    (named : p.node.sourceLabel? = some label) (children : ∀ c ∈ p.node.shape.children, Grounded n c)
    (forms : ∀ x ∈ n.sites 0 [], p.depth < x.depth → x.around = p.inside → Grounded n x.node) :
    Acc n.Behind label := by
  refine .intro _ fun inner ⟨m, stands, inside⟩ => ?_
  obtain ⟨p', site', named', held⟩ := behind_site sight stands
  obtain rfl := site_unique distinct site' site named' named
  rcases held with child | ⟨depth, further, form⟩
  · exact children m child inner inside
  · exact forms _ form further rfl inner inside

theorem acc_undeclared (sight : n.inSight = true) (undeclared : label ∉ n.labels) : Acc n.Behind label := by
  refine .intro _ fun inner ⟨m, stands, _⟩ => absurd ?_ undeclared
  obtain ⟨p, site, named, -⟩ := behind_site sight stands
  exact List.mem_filterMap.mpr ⟨p.node, mem_site.mpr ⟨p, site, rfl⟩, named⟩

theorem shows_grounded {m : Node} {around : List Visible} (grounded : Grounded n m)
    (seen : ∀ v ∈ around, Acc n.Behind v.label) : ∀ v ∈ m.shows around, Acc n.Behind v.label := by
  induction m using inductNode generalizing around with
  | step s ih =>
    obtain ⟨own, below⟩ := grounded_mk.mp grounded
    cases s with
    | table name label type => exact List.forall_mem_singleton.mpr (own label rfl)
    | select q =>
      rw [shows_select]
      exact List.forall_mem_singleton.mpr (own q.label rfl)
    | join kind left right condition =>
      rw [shows_join]
      have first := ih left (by simp [Shape.children]) (below left (by simp [Shape.children])) seen
      have second := ih right (by simp [Shape.children]) (below right (by simp [Shape.children]))
        (List.forall_mem_append.mpr ⟨first, seen⟩)
      exact List.forall_mem_append.mpr ⟨first, second⟩
    | _ => exact fun _ member => absurd member List.not_mem_nil

theorem grounded_site (sight : n.inSight = true) (distinct : n.labels.Nodup) (bound : Nat)
    (depths : ∀ p ∈ n.sites 0 [], p.depth < bound) (levels : Nat) : ∀ p ∈ n.sites 0 [], bound ≤ p.depth + levels →
      (∀ v ∈ p.around, Acc n.Behind v.label) → Grounded n p.node := by
  -- The outer induction is on how many more forms may stand inside one another, the inner one on the node.
  induction levels with
  | zero => exact fun p site deep => absurd (depths p site) (Nat.not_lt.mpr deep)
  | succ levels deeper =>
    rintro ⟨depth, around, m⟩ site deep seen
    induction m using inductNode generalizing depth around with
    | step s ih =>
      have child {x : Site Node} (member : x ∈ s.sites id depth around)
          (seen : ∀ v ∈ x.around, Acc n.Behind v.label) : Grounded n x.node :=
        ih x.node (Shape.site_child member) x.depth x.around (sites_child site member)
          (deep.trans (Nat.add_le_add_right (Shape.site_depth member) _)) seen
      have declares {label : String} (named : (Node.mk s).sourceLabel? = some label)
          (inside : ∀ v ∈ Site.inside ⟨depth, around, .mk s⟩, Acc n.Behind v.label)
          (children : ∀ c ∈ s.children, Grounded n c) : Acc n.Behind label := by
        refine acc_declared sight distinct site named children fun x placed further same => ?_
        -- What the label stands for may stand further inside, where one level fewer is left.
        exact deeper x placed (by simp only at further deep; omega) (same ▸ inside)
      refine grounded_mk.mpr ?_
      cases s with
      | select q =>
        have source : ∀ c ∈ q.source, Grounded n c := fun c reads =>
          child (x := ⟨depth, around, c⟩) (List.mem_append_left _ (by simp [Option.mem_def.mp reads])) seen
        have inside : ∀ v ∈ Site.inside ⟨depth, around, .select q⟩, Acc n.Behind v.label := by
          refine List.forall_mem_append.mpr ⟨?_, seen⟩
          cases reads : q.source with
          | none => exact fun _ member => absurd member List.not_mem_nil
          | some c => exact shows_grounded (source c reads) seen
        have children : ∀ c ∈ q.children, Grounded n c := by
          intro c member
          rcases List.mem_append.mp ((Select.children_perm q).subset member) with reads | held
          · exact source c (Option.mem_toList.mp reads)
          · exact child (List.mem_append_right _ (List.mem_map_of_mem held)) inside
        exact ⟨fun label own => declares own inside children, children⟩
      | join kind left right condition =>
        -- The right side sees what the left side shows, and the condition sees both.
        have first := child (x := ⟨depth, around, left⟩) List.mem_cons_self seen
        have beside := List.forall_mem_append.mpr ⟨shows_grounded first seen, seen⟩
        have second := child (x := ⟨depth, left.shows around ++ around, right⟩)
          (List.mem_cons_of_mem _ List.mem_cons_self) beside
        refine ⟨fun _ none => absurd none (by simp [Shape.label?]), fun c member => ?_⟩
        rcases List.mem_cons.mp member with rfl | member
        · exact first
        · rcases List.mem_cons.mp member with rfl | test
          · exact second
          · exact child (List.mem_cons_of_mem _ (List.mem_cons_of_mem _ (List.mem_map_of_mem test)))
              (List.forall_mem_append.mpr ⟨shows_grounded second beside, beside⟩)
      | groupAggregate label inGroup asQuery type =>
        have visible : around.any (·.label == label) = true := List.all_eq_true.mp sight _ site
        obtain ⟨v, member, named⟩ := List.any_eq_true.mp visible
        have own : Acc n.Behind label := beq_iff_eq.mp named ▸ seen v member
        refine ⟨fun label' same => Option.some.inj same ▸ own, fun c member => ?_⟩
        rcases List.mem_pair.mp member with rfl | rfl
        · -- The form is among what the label stands for.
          refine fun inner inside => own.inv ⟨c, List.mem_flatMap.mpr ⟨_, mem_site.mpr ⟨_, site, rfl⟩, ?_⟩, inside⟩
          simp [Shape.behind]
        · exact child (x := ⟨depth, around, c⟩) (List.mem_cons_of_mem _ List.mem_cons_self) seen
      | table name label type =>
        refine ⟨fun label own => declares own ?_ ?_, ?_⟩ <;> exact fun _ member => absurd member List.not_mem_nil
      | column c =>
        refine ⟨fun label own => ?_, fun _ member => absurd member List.not_mem_nil⟩
        have fits : (around.any (·.label == c.label) || !n.labels.contains c.label) = true :=
          List.all_eq_true.mp sight _ site
        obtain rfl := Option.some.inj own
        rcases Bool.or_eq_true_iff.mp fits with visible | undeclared
        · obtain ⟨v, member, named⟩ := List.any_eq_true.mp visible
          exact beq_iff_eq.mp named ▸ seen v member
        · exact acc_undeclared sight (by simpa using undeclared)
      | _ =>
        refine ⟨fun _ none => absurd none (by simp [Shape.label?]), fun c member => ?_⟩
        exact child (x := ⟨depth, around, c⟩) (List.mem_map_of_mem member) seen

/-- Where labels are distinct and everything refers to what is visible, references go in no circle. -/
theorem behind_wellFounded (sight : n.inSight = true) (distinct : n.labels.Nodup) : WellFounded n.Behind := by
  obtain ⟨bound, depths⟩ : ∃ bound, ∀ p ∈ n.sites 0 [], p.depth < bound :=
    ⟨((n.sites 0 []).map Site.depth).sum + 1, fun p site =>
      Nat.lt_succ_of_le (List.le_sum_of_mem (List.mem_map_of_mem site))⟩
  have top : ⟨0, [], n⟩ ∈ n.sites 0 [] := by
    obtain ⟨s⟩ := n
    rw [sites_mk]
    exact List.mem_cons_self
  have grounded := grounded_site sight distinct bound depths bound _ top (Nat.le_add_left _ _) (by simp)
  refine ⟨fun label => ?_⟩
  by_cases declared : label ∈ n.labels
  · exact grounded label (declared_label declared)
  · exact acc_undeclared sight declared

end Node

end QueryTree
