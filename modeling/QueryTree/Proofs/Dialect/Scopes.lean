import Mathlib.Data.List.Perm.Basic
import Mathlib.Order.FixedPoints
import QueryTree.Proofs.Dialect.Roles
import QueryTree.Proofs.Node.Labels

/-! Scopes, and labels of what is written and of what is not.

A select binds its own label and the labels of what it reads from, for all that is in it; an aggregate over a group is
computed where the group is. Where labels are distinct and everything refers to what is bound around it, nothing that is
written can refer to anything that is not.
-/

set_option autoImplicit false

namespace QueryTree

/-! ### Scopes -/

/-- Tables and selects, each bound to its label. -/
abbrev Scope := List Node

/-- The tables and selects joined in a source. -/
def Node.sources : Node → Scope
  | .join _ left right _ => left.sources ++ right.sources
  | n => [n]

/-- What is bound in a select: the select itself, and what it reads from. -/
def Select.scope (q : Select Node) : Scope := .select q :: (q.source.map Node.sources).getD []

/-- What is bound in a group. A table binds nothing. -/
def Node.scope : Node → Scope
  | .select q => q.scope
  | _ => []

/-- What a label is bound to, seen from inside out, and the scopes around it. -/
def Scope.lookup (label : String) : List Scope → Option (Node × List Scope)
  | [] => none
  | scope :: outer =>
    match scope.find? fun n => n.sourceLabel? == some label with
    | some n => some (n, scope :: outer)
    | none => lookup label outer

theorem Scope.lookup_some {label : String} {scopes around : List Scope} {n : Node}
    (found : lookup label scopes = some (n, around)) :
    around <:+ scopes ∧ n.sourceLabel? = some label ∧ ∃ scope ∈ around.head?, n ∈ scope := by
  induction scopes with
  | nil => cases found
  | cons scope outer ih =>
    unfold lookup at found
    split at found
    · rename_i n' here
      cases found
      exact ⟨List.suffix_rfl, by simpa using List.find?_some here, scope, rfl, List.mem_of_find?_eq_some here⟩
    · obtain ⟨suffix, rest⟩ := ih found
      exact ⟨suffix.trans (List.suffix_cons scope outer), rest⟩

/-- All that a layer refers to is bound, and all that its children do. The column of a wildcard is no reference. -/
def Shape.closed (scopes : List Scope) : Shape (Node × (List Scope → Bool)) → Bool
  | .column c => (Scope.lookup c.label scopes).isSome
  | .groupAggregate label inGroup asQuery _ =>
    (Scope.lookup label scopes).any (fun (group, around) => inGroup.2 (group.scope :: around)) && asQuery.2 scopes
  | .select q =>
    let inside := (q.map Prod.fst).scope :: scopes
    (q.columns.all fun b => b.isWildcard && b.expr.1.column?.isSome || b.expr.2 inside) &&
      (q.source.toList ++ q.clauses).all fun c => c.2 inside
  | s => s.children.all fun c => c.2 scopes

namespace Node

/-- All that is referred to in a tree is bound in it or around it. -/
def closed : Node → List Scope → Bool := para fun s scopes => s.closed scopes

variable {s : Shape Node} {scopes : List Scope}

theorem closed_step : (Node.mk s).closed scopes = (s.map fun c => (c, c.closed)).closed scopes := by
  unfold closed
  rw [para_mk]

theorem closed_column {c : Column} : (Node.column c).closed scopes = (Scope.lookup c.label scopes).isSome := rfl

theorem closed_aggregate {label : String} {inGroup asQuery : Node} {type : DataType} :
    (Node.groupAggregate label inGroup asQuery type).closed scopes = true ↔
      (∃ group around, Scope.lookup label scopes = some (group, around) ∧ inGroup.closed (group.scope :: around) = true) ∧
        asQuery.closed scopes = true := by
  simp only [closed_step, Shape.closed, Shape.map, Bool.and_eq_true, Option.any_eq_true, Prod.exists]

theorem closed_select {q : Select Node} : (Node.select q).closed scopes = true ↔
    (∀ b ∈ q.columns, b.isWildcard = true ∧ b.expr.column?.isSome = true ∨ b.expr.closed (q.scope :: scopes) = true) ∧
      ∀ c ∈ q.source.toList ++ q.clauses, c.closed (q.scope :: scopes) = true := by
  have same : (q.map fun c => (c, c.closed)).map Prod.fst = q :=
    Shape.select.inj ((Shape.map_map _ _ (Shape.select q)).trans (Shape.map_id _))
  have beside : (q.map fun c => (c, c.closed)).source.toList ++ (q.map fun c => (c, c.closed)).clauses =
      (q.source.toList ++ q.clauses).map fun c => (c, c.closed) := by
    simp [Select.map, Select.clauses, Shape.toList_map, OrderItem.map, Function.comp_def]
  simp only [closed_step, Shape.closed, Shape.map, same, beside, Bool.and_eq_true, List.all_eq_true, List.forall_mem_map,
    Bool.or_eq_true]
  exact and_congr_left fun _ => List.forall_mem_map

theorem closed_mk (inside : s.kind ≠ .select) (plain : s.kind ≠ .column) (single : s.kind ≠ .groupAggregate) :
    (Node.mk s).closed scopes = true ↔ ∀ c ∈ s.children, c.closed scopes = true := by
  have rest (s : Shape Node) : (s.map fun c => (c, c.closed)).children.all (fun c => c.2 scopes) = true ↔
      ∀ c ∈ s.children, c.closed scopes = true := by
    rw [Shape.children_map, List.all_map, List.all_eq_true]
    rfl
  rw [closed_step]
  cases s <;> first
    | exact absurd rfl inside
    | exact absurd rfl plain
    | exact absurd rfl single
    | exact rest _

end Node

/-! ### Labels of what is written -/

section Labels

variable {v : Draft} {r : Role} {s : Shape Node} {n : Node} {label : String}

namespace Node

/-- The labels of a tree in some role that go with what is not written, or with what is. -/
def labelsAt (v : Draft) (unwritten : Bool) : Node → Role → List String :=
  para fun s r =>
    (if (r == .unwritten) = unwritten then (sourceLabel? (.mk (s.map Prod.fst))).toList else []) ++
      (s.roles v r).flatMap fun x => x.2.2 x.1

theorem labelsAt_mk {unwritten : Bool} : (Node.mk s).labelsAt v unwritten r =
    (if (r == .unwritten) = unwritten then (sourceLabel? (.mk s)).toList else []) ++
      (s.roles v r).flatMap fun x => x.2.labelsAt v unwritten x.1 := by
  unfold labelsAt
  rw [para_mk, Shape.roles_map, Shape.map_map, Shape.map_id, List.flatMap_map]
  rfl

theorem labelsAt_perm (v : Draft) (n : Node) (r : Role) :
    (n.labelsAt v true r ++ n.labelsAt v false r).Perm n.labels := by
  induction n using inductNode generalizing r with
  | step s ih =>
    have below : ((s.roles v r).flatMap (fun x => x.2.labelsAt v true x.1) ++
        (s.roles v r).flatMap fun x => x.2.labelsAt v false x.1).Perm (s.children.flatMap labels) := by
      rw [← Shape.roles_snd (v := v) r s, List.flatMap_map]
      exact (List.flatMap_append_perm ..).trans
        (List.Perm.flatMap_left _ fun x member => ih x.2 (Shape.roles_child member) x.1)
    rw [labels_mk, labelsAt_mk, labelsAt_mk]
    by_cases unwritten : r = .unwritten
    · simpa [unwritten] using below.append_left (sourceLabel? (.mk s)).toList
    · simpa [unwritten] using (List.perm_append_comm_assoc ..).trans (below.append_left _)

/-- What is not written goes by labels that are lost, and what is written by others. -/
structure Apart (v : Draft) (r : Role) (n : Node) : Prop where
  lost : ∀ label ∈ n.labelsAt v true r, v.loses label = true
  shown : ∀ label ∈ n.labelsAt v false r, v.shows label = true

theorem Apart.part (apart : (Node.mk s).Apart v r) {x : Role × Node} (member : x ∈ s.roles v r) : x.2.Apart v x.1 where
  lost label found := apart.lost label <| by
    rw [labelsAt_mk]
    exact List.mem_append_right _ (List.mem_flatMap.mpr ⟨x, member, found⟩)
  shown label found := apart.shown label <| by
    rw [labelsAt_mk]
    exact List.mem_append_right _ (List.mem_flatMap.mpr ⟨x, member, found⟩)

theorem Apart.loses (apart : n.Apart v .unwritten) (named : n.sourceLabel? = some label) : v.loses label = true := by
  obtain ⟨s⟩ := n
  exact apart.lost label (by rw [labelsAt_mk, named]; simp)

theorem Apart.shows (apart : n.Apart v r) (written : r ≠ .unwritten) (named : n.sourceLabel? = some label) :
    v.shows label = true := by
  obtain ⟨s⟩ := n
  exact apart.shown label (by rw [labelsAt_mk, named]; simp [written])

end Node

section More

variable {lost : Option (String → Bool)} {r' : Role} (strict : v.eitherForm = false)
  (more : ∀ label, v.loses label = true → { v with lost }.loses label = true)

include strict more

/-- Where more labels are lost, more children are not written. -/
theorem Shape.roles_lost {x : Role × Node} (member : x ∈ s.roles v r) (below : r' = r ∨ r' = .unwritten) :
    ∃ r'', (r'', x.2) ∈ s.roles { v with lost } r' ∧ (r'' = x.1 ∨ r'' = .unwritten) := by
  have within (inner : Role) : r'.within inner = r.within inner ∨ r'.within inner = .unwritten := by
    rcases below with rfl | rfl <;> simp [Role.within]
  have rest {inner : Role} {cs : List Node} (member : x ∈ cs.map (Prod.mk (r.within inner))) :
      ∃ r'', (r'', x.2) ∈ cs.map (Prod.mk (r'.within inner)) ∧ (r'' = x.1 ∨ r'' = .unwritten) := by
    obtain ⟨c, child, rfl⟩ := List.mem_map.mp member
    exact ⟨_, List.mem_map_of_mem child, within inner⟩
  cases s with
  | select q =>
    by_cases hidden : r' = .unwritten ∧ { v with lost }.loses q.label = true
    · have child : x.2 ∈ (Shape.select q).children := Shape.roles_child member
      refine ⟨.unwritten, ?_, .inr rfl⟩
      rw [roles, if_pos hidden]
      exact List.mem_map_of_mem child
    · have kept : ¬ (r = .unwritten ∧ v.loses q.label = true) := by
        rintro ⟨unwritten, hides⟩
        exact hidden ⟨by simpa [unwritten] using below, more _ hides⟩
      rw [roles, if_neg kept] at member
      rw [roles, if_neg hidden]
      exact ⟨x.1, member, .inl rfl⟩
  | groupAggregate label inGroup asQuery type =>
    by_cases unwritten : r' = .unwritten
    · rw [roles, if_pos unwritten]
      have forms : x.2 = asQuery ∨ x.2 = inGroup ∧ (x.1 = .expression ∨ v.loses label = true) := by
        simp only [roles, Draft.form, strict] at member
        split at member <;> rcases List.mem_pair.mp member with rfl | rfl
        · exact .inr ⟨rfl, by cases v.loses label <;> simp⟩
        · exact .inl rfl
        · exact .inr ⟨rfl, .inl rfl⟩
        · exact .inl rfl
      -- The form inside the group is written wherever the group is.
      rcases forms with same | ⟨same, computed⟩ <;> rw [same]
      · exact ⟨.unwritten, by simp, .inr rfl⟩
      · refine ⟨_, List.mem_cons_self, ?_⟩
        split
        · exact .inr rfl
        · rename_i kept
          exact .inl (computed.resolve_right fun hides => kept (more label hides)).symm
    · obtain rfl : r' = r := by simpa [unwritten] using below
      rw [roles, if_neg unwritten] at member
      rw [roles, if_neg unwritten]
      exact ⟨x.1, member, .inl rfl⟩
  | join kind left right condition =>
    simp only [roles, List.mem_cons] at member ⊢
    rcases member with rfl | rfl | member
    · exact ⟨_, .inl rfl, within _⟩
    · exact ⟨_, .inr (.inl rfl), within _⟩
    · exact (rest member).imp fun _ => And.imp_left fun member => .inr (.inr member)
  | subquery kind operand query type =>
    simp only [roles, List.mem_append, List.mem_singleton] at member ⊢
    rcases member with member | rfl
    · exact (rest member).imp fun _ => And.imp_left .inl
    · exact ⟨_, .inr rfl, within _⟩
  | _ => exact rest member

theorem Node.labelsAt_lost (n : Node) (below : r' = r ∨ r' = .unwritten) :
    n.labelsAt v true r ⊆ n.labelsAt { v with lost } true r' := by
  induction n using inductNode generalizing r r' with
  | step s ih =>
    intro label found
    rw [labelsAt_mk] at found ⊢
    rcases List.mem_append.mp found with own | inside
    · refine List.mem_append_left _ ?_
      by_cases unwritten : r = .unwritten
      · rcases below with rfl | rfl <;> simpa [unwritten] using own
      · simp [unwritten] at own
    · obtain ⟨x, member, inside⟩ := List.mem_flatMap.mp inside
      obtain ⟨r'', member', below⟩ := Shape.roles_lost strict more member below
      refine List.mem_append_right _ (List.mem_flatMap.mpr ⟨_, member', ?_⟩)
      exact ih x.2 (Shape.roles_child member) below inside

end More

/-- Distinct labels can be told apart: those are lost that the loss of no other label makes it necessary to lose. -/
theorem Node.exists_apart (strict : v.eitherForm = false) (n : Node) (distinct : n.labels.Nodup) (r : Role) :
    ∃ hides, n.Apart { v with lost := some hides } r := by
  classical
  -- What is not written depends on the labels that are lost, and these are the labels of what is not written.
  let unwritten : Set String →o Set String :=
    { toFun := fun lost => { label | label ∈ n.labelsAt { v with lost := some (decide <| · ∈ lost) } true r }
      monotone' := fun lost lost' fewer label =>
        n.labelsAt_lost (v := { v with lost := some _ }) strict (by simpa [Draft.loses] using fun label => @fewer label)
          (.inl rfl) (a := label) }
  let hides (label : String) : Bool := decide (label ∈ unwritten.lfp)
  have fixed (label : String) : hides label = true ↔ label ∈ n.labelsAt { v with lost := some hides } true r := by
    rw [decide_eq_true_iff]
    exact Set.ext_iff.mp unwritten.map_lfp.symm label
  obtain ⟨-, -, apart⟩ := List.nodup_append.mp ((labelsAt_perm { v with lost := some hides } n r).nodup_iff.mpr distinct)
  refine ⟨hides, fun label found => (fixed label).mpr found, fun label found => ?_⟩
  have kept : hides label = false :=
    Bool.eq_false_iff.mpr fun hidden => apart label ((fixed label).mp hidden) label found rfl
  simp [Draft.shows, kept]

namespace Node

theorem Apart.roles_select {q : Select Node} (apart : (Node.select q).Apart v .unwritten) :
    (Shape.select q).roles v .unwritten = q.children.map (Prod.mk .unwritten) :=
  if_pos ⟨rfl, apart.loses rfl⟩

theorem Apart.sources (apart : n.Apart v r) (source : r.within .source = r) : ∀ m ∈ n.sources, m.Apart v r := by
  induction n using inductNode with
  | step s ih =>
    have alone : ∀ m ∈ [Node.mk s], m.Apart v r := by simpa using apart
    cases s with
    | join kind left right condition =>
      have first : left.Apart v r := source ▸ apart.part (x := (r.within .source, left)) (by simp [Shape.roles])
      have second : right.Apart v r := source ▸ apart.part (x := (r.within .source, right)) (by simp [Shape.roles])
      exact List.forall_mem_append.mpr
        ⟨ih left (by simp [Shape.children]) first, ih right (by simp [Shape.children]) second⟩
    | _ => exact alone

theorem Apart.source {q : Select Node} (apart : (Node.select q).Apart v r) :
    (Node.select q).Apart v (r.within .source) := by
  by_cases written : r = .unwritten
  · exact written ▸ apart
  · have role : (r == .unwritten) = (Role.source == .unwritten) := by
      cases r <;> first | rfl | exact absurd rfl written
    have same (unwritten : Bool) :
        (Node.select q).labelsAt v unwritten .source = (Node.select q).labelsAt v unwritten r := by
      rw [labelsAt_mk, labelsAt_mk, Shape.roles_select written, Shape.roles_select (by simp), role]
    rw [Role.within_source written]
    exact ⟨same true ▸ apart.lost, same false ▸ apart.shown⟩

theorem Apart.scope (apart : n.Apart v r) : ∀ m ∈ n.scope, m.Apart v (r.within .source) := by
  obtain ⟨s⟩ := n
  cases s with
  | select q =>
    refine List.forall_mem_cons.mpr ⟨apart.source, ?_⟩
    cases reads : q.source with
    | none => exact fun _ member => absurd member List.not_mem_nil
    | some source =>
      refine Apart.sources (apart.part (x := (r.within .source, source)) ?_) (by cases r <;> rfl)
      by_cases unwritten : r = .unwritten
      · subst unwritten
        rw [apart.roles_select]
        exact List.mem_map_of_mem (Select.source_child reads)
      · rw [Shape.roles_select unwritten, Role.within_source unwritten]
        simp [Select.roles, reads]
  | _ => exact fun _ member => absurd member List.not_mem_nil

end Node

/-- The scopes around what has a role, from inside out. What is written is in scopes of what is written only. -/
inductive Scope.Around (v : Draft) : Role → List Scope → Prop where
  | written {r : Role} {scopes : List Scope} : (∀ scope ∈ scopes, ∀ n ∈ scope, Node.Apart v .source n) → Around v r scopes
  | unwritten {scope : Scope} {scopes : List Scope} : (∀ n ∈ scope, Node.Apart v .unwritten n) →
      Around v .unwritten scopes → Around v .unwritten (scope :: scopes)

namespace Scope.Around

variable {scopes outer : List Scope}

theorem shown (around : Around v r scopes) (written : r ≠ .unwritten) :
    ∀ scope ∈ scopes, ∀ n ∈ scope, n.Apart v .source := by
  cases around with
  | written shown => exact shown
  | unwritten => exact absurd rfl written

theorem within (around : Around v r scopes) (r' : Role) : Around v (r.within r') scopes := by
  cases around with
  | written shown => exact .written shown
  | unwritten lost rest => exact .unwritten lost rest

theorem enter {q : Select Node} (around : Around v r scopes) (apart : (Node.select q).Apart v r) {x : Role × Node}
    (member : x ∈ (Shape.select q).roles v r) : Around v x.1 (q.scope :: scopes) := by
  have own : ∀ n ∈ q.scope, n.Apart v (r.within .source) := apart.scope
  by_cases unwritten : r = .unwritten
  · subst unwritten
    rw [apart.roles_select] at member
    obtain ⟨c, -, rfl⟩ := List.mem_map.mp member
    exact .unwritten own around
  · rw [Role.within_source unwritten] at own
    exact .written (List.forall_mem_cons.mpr ⟨own, around.shown unwritten⟩)

/-- What a label is bound to is written, with all around it, or it is not and neither is what refers to it. -/
theorem bound (around : Around v r scopes) (found : lookup label scopes = some (n, outer)) :
    v.shows label = true ∧ Around v .expression (n.scope :: outer) ∨
      r = .unwritten ∧ v.loses label = true ∧ Around v .unwritten (n.scope :: outer) := by
  induction around with
  | written shown =>
    obtain ⟨suffix, named, scope, first, member⟩ := lookup_some found
    have outside : ∀ scope ∈ outer, ∀ n ∈ scope, n.Apart v .source :=
      fun scope member => shown scope (suffix.subset member)
    have apart : n.Apart v .source := outside scope (List.mem_of_mem_head? first) n member
    exact .inl ⟨apart.shows (by simp) named, .written (List.forall_mem_cons.mpr ⟨apart.scope, outside⟩)⟩
  | unwritten lost rest ih =>
    unfold lookup at found
    split at found
    · rename_i here
      cases found
      have apart := lost n (List.mem_of_find?_eq_some here)
      exact .inr ⟨rfl, apart.loses (by simpa using List.find?_some here), .unwritten apart.scope (.unwritten lost rest)⟩
    · exact ih found

end Scope.Around

end Labels

/-! ### What may be written within its scopes -/

/-- Asked of a tree before it is known which labels are lost, and which form of an aggregate over a group is written. -/
def Draft.lenient (v : Draft) : Draft := { v with eitherForm := true, lost := none }

namespace Shape

variable {α : Type} {v : Draft} {r : Role} {s : Shape α}

def forms : Shape α → List α
  | .groupAggregate _ inGroup asQuery _ => [inGroup, asQuery]
  | _ => []

/-- A layer has words as soon as its label may be shown. -/
theorem fits_shown (shown : ∀ label ∈ s.label?, v.shows label = true) (fits : s.fits v.lenient r = true) :
    s.fits v r = true := by
  cases r <;> cases s <;> first | exact fits | exact shown _ rfl

theorem roles_lenient (notSelect : s.kind ≠ .select) (notGroup : s.kind ≠ .groupAggregate) :
    s.roles v.lenient r = s.roles v r := by
  cases s <;> first | rfl | exact absurd rfl notSelect | exact absurd rfl notGroup

theorem roles_within (notSelect : s.kind ≠ .select) (notGroup : s.kind ≠ .groupAggregate) {x : Role × α}
    (member : x ∈ s.roles v r) : ∃ inner, x.1 = r.within inner := by
  have rest {inner : Role} {cs : List α} (member : x ∈ cs.map (Prod.mk (r.within inner))) :
      ∃ inner, x.1 = r.within inner := by
    obtain ⟨c, -, rfl⟩ := List.mem_map.mp member
    exact ⟨inner, rfl⟩
  cases s with
  | select => exact absurd rfl notSelect
  | groupAggregate => exact absurd rfl notGroup
  | join =>
    simp only [roles, List.mem_cons] at member
    rcases member with rfl | rfl | member
    · exact ⟨_, rfl⟩
    · exact ⟨_, rfl⟩
    · exact rest member
  | subquery =>
    simp only [roles, List.mem_append, List.mem_singleton] at member
    rcases member with member | rfl
    · exact rest member
    · exact ⟨_, rfl⟩
  | _ => exact rest member

end Shape

section Closed

variable {v : Draft} {hides : String → Bool} (known : v.lost = some hides) (strict : v.eitherForm = false)
  {r : Role} {scopes : List Scope}

theorem Node.closed_roles {q : Select Node} (apart : (Node.select q).Apart v r)
    (closed : (Node.select q).closed scopes = true) : ∀ x ∈ (Shape.select q).roles v r,
      x.1 = .unwritten ∧ x.2.column?.isSome = true ∨ x.2.closed (q.scope :: scopes) = true := by
  obtain ⟨columns, beside⟩ := closed_select.mp closed
  -- Below an unwritten select nothing is written, its wildcards included.
  by_cases unwritten : r = .unwritten
  · subst unwritten
    rw [apart.roles_select, List.forall_mem_map]
    intro c child
    rcases Select.mem_children.mp child with ⟨b, column, rfl⟩ | source | clause
    · exact (columns b column).imp_left fun wild => ⟨rfl, wild.2⟩
    · exact .inr (beside c (List.mem_append_left _ (Option.mem_toList.mpr source)))
    · exact .inr (beside c (List.mem_append_right _ clause))
  · obtain ⟨source, filter, groups, order, skip, take⟩ := Select.forall_beside.mp beside
    rw [Shape.roles_select unwritten]
    refine (Select.forall_roles
      (P := fun r n => r = .unwritten ∧ n.column?.isSome = true ∨ n.closed (q.scope :: scopes) = true)).mpr
      ⟨fun b column => (columns b column).imp_left fun wild => ⟨if_pos wild.1, wild.2⟩, ?_, ?_, ?_, ?_, ?_, ?_⟩
    · exact fun s reads => .inr (source s reads)
    · exact fun f tests => .inr (filter f tests)
    · exact fun g keyed => .inr (groups g keyed)
    · exact fun o sorts => .inr (order o sorts)
    · exact fun n skips => .inr (skip n skips)
    · exact fun n takes => .inr (take n takes)

theorem Node.Apart.label_shown {s : Shape Node} (apart : (Node.mk s).Apart v r) (around : Scope.Around v r scopes)
    (closed : (Node.mk s).closed scopes = true) (written : r ≠ .unwritten) :
    ∀ label ∈ s.label?, v.shows label = true := by
  have bound {label : String} {n : Node} {outer : List Scope} (found : Scope.lookup label scopes = some (n, outer)) :
      v.shows label = true := by
    rcases around.bound found with ⟨shown, -⟩ | ⟨unwritten, -⟩
    · exact shown
    · exact absurd unwritten written
  intro label named
  cases s with
  | select | table => exact apart.shows written named
  | column c =>
    cases named
    obtain ⟨found, known⟩ := Option.isSome_iff_exists.mp (closed_column ▸ closed)
    exact bound known
  | groupAggregate =>
    cases named
    obtain ⟨⟨group, outer, found, -⟩, -⟩ := closed_aggregate.mp closed
    exact bound found
  | _ => cases named

include known strict

/-- What refers to nothing but what is bound around it can be written, if it can be wherever its labels are from and
whichever form of its aggregates over groups is written. -/
theorem Node.writable_closed {n : Node}
    (forms : ∀ m ∈ n.subtrees, ∀ form ∈ m.shape.forms, form.Writable v.lenient .expression)
    (apart : n.Apart v r) (around : Scope.Around v r scopes) (closed : n.closed scopes = true)
    (writable : n.Writable v.lenient r) : n.Writable v r := by
  induction n using inductNode generalizing r scopes with
  | step s ih =>
    obtain ⟨fits, parts⟩ := writable_mk.mp writable
    have below {x : Role × Node} (member : x ∈ s.roles v r) {inside : List Scope} (around : Scope.Around v x.1 inside)
        (closed : x.2.closed inside = true) (writable : x.2.Writable v.lenient x.1) : x.2.Writable v x.1 := by
      have child : x.2 ∈ s.children := Shape.roles_child member
      exact ih x.2 child (fun m inner => forms m (mem_subtrees_of_child child inner)) (apart.part member) around closed
        writable
    have fits : s.fits v r = true := by
      by_cases unwritten : r = .unwritten
      · subst unwritten
        rfl
      · exact Shape.fits_shown (apart.label_shown around closed unwritten) fits
    refine writable_mk.mpr ⟨fits, fun x member => ?_⟩
    by_cases select : s.kind = .select
    · cases s with
      | select q =>
        rcases closed_roles apart closed x member with ⟨unwritten, column⟩ | closed
        · obtain ⟨c, reference⟩ := Option.isSome_iff_exists.mp column
          rw [column_some reference, unwritten]
          exact writable_column.mpr (.inl rfl)
        · refine below member (around.enter apart member) closed ?_
          by_cases unwritten : r = .unwritten
          · subst unwritten
            rw [apart.roles_select] at member
            obtain ⟨c, -, rfl⟩ := List.mem_map.mp member
            exact writable_unwritten rfl c
          · rw [Shape.roles_select unwritten] at parts member
            exact parts x member
      | _ => cases select
    by_cases group : s.kind = .groupAggregate
    · cases s with
      | groupAggregate label inGroup asQuery type =>
        -- The form inside the group is in the scopes of the group, and has the role that they allow.
        obtain ⟨⟨group, outer, found, inside⟩, aside⟩ := closed_aggregate.mp closed
        obtain ⟨first, second⟩ : inGroup.Writable v.lenient .expression ∧ asQuery.Writable v.lenient .expression := by
          simpa [Shape.forms] using forms _ (self_mem_subtrees _)
        by_cases unwritten : r = .unwritten
        · have roles : (Shape.groupAggregate label inGroup asQuery type).roles v r =
              [(if v.loses label then .unwritten else .expression, inGroup), (.unwritten, asQuery)] := if_pos unwritten
          rw [roles] at member below
          rcases List.mem_pair.mp member with rfl | rfl
          · rcases around.bound found with ⟨shown, around⟩ | ⟨-, lost, around⟩
            · rw [Draft.loses_of_shows known shown] at member below ⊢
              exact below member around inside first
            · rw [lost] at member below ⊢
              exact below member around inside (writable_unwritten rfl _)
          · exact below member (unwritten ▸ around) aside (writable_unwritten rfl _)
        · have roles : (Shape.groupAggregate label inGroup asQuery type).roles v r =
              [(.expression, inGroup), (.expression, asQuery)] := by
            rw [Shape.roles, if_neg unwritten, Draft.form, strict]
            rfl
          rw [roles] at member below
          rcases List.mem_pair.mp member with rfl | rfl
          · rcases around.bound found with ⟨-, around⟩ | ⟨same, -⟩
            · exact below member around inside first
            · exact absurd same unwritten
          · exact below member (.written (around.shown unwritten)) aside second
      | _ => cases group
    · have plain : s.kind ≠ .column := by
        rintro column
        cases s with
        | column => exact absurd member List.not_mem_nil
        | _ => cases column
      obtain ⟨inner, role⟩ := Shape.roles_within select group member
      have child : x.2 ∈ s.children := Shape.roles_child member
      refine below member (role ▸ around.within inner) ((closed_mk select plain group).mp closed x.2 child) (parts x ?_)
      rwa [Shape.roles_lenient select group]

end Closed

end QueryTree
