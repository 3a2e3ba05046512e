import QueryTree.Proofs.Node.Pairing
import QueryTree.Proofs.Pass.ResultColumns

/-! Where references to equal columns turn.

Of equal columns of a source the first stays, and is never itself dropped in favour of another. So a reference turns
once, whether columns are dropped before references turn or after. Where labels are distinct, and names in each select,
the column that it then names is declared by the expression of the one it named.
-/

set_option autoImplicit false

namespace QueryTree

/-- The expression by which a select declares the column that a reference names. -/
def Node.Declares (n : Node) (c : Column) (e : Node) : Prop :=
  ∃ q ∈ n.queries, q.label = c.label ∧ ∃ b ∈ q.columns, b.name = c.name ∧ b.expr = e

namespace Pass

namespace Duplicate

theorem addEqual_cons (b c : Binding Node) (found : List Duplicate) (later : List (Binding Node)) :
    addEqual b found (c :: later) =
      addEqual b (if !drops found c.name && b.expr == c.expr then found ++ [⟨c.name, b⟩] else found) later := rfl

variable {b : Binding Node} {d : Duplicate} {found : List Duplicate} {later : List (Binding Node)}

theorem drops_iff {name : String} : drops found name = true ↔ name ∈ found.map (·.name) := by
  simp [drops]

theorem addEqual_mem (member : d ∈ addEqual b found later) :
    d ∈ found ∨ d.survivor = b ∧ ∃ c ∈ later, c.name = d.name ∧ c.expr = b.expr := by
  induction later generalizing found with
  | nil => exact .inl member
  | cons c later ih =>
    rw [addEqual_cons] at member
    rcases ih member with member | ⟨same, e, inside, equal⟩
    · split at member
      next equal =>
        rcases List.mem_append.mp member with member | member
        · exact .inl member
        · obtain rfl := List.mem_singleton.mp member
          have same := Node.eq_of_alike (Bool.and_eq_true_iff.mp equal).2
          exact .inr ⟨rfl, c, List.mem_cons_self, rfl, same.symm⟩
      next => exact .inl member
    · exact .inr ⟨same, e, List.mem_cons_of_mem _ inside, equal⟩

theorem collect_mem {columns : List (Binding Node)} (member : d ∈ collect columns found) : d ∈ found ∨
    d.survivor ∈ columns ∧ ∃ c ∈ columns.tail, c.name = d.name ∧ c.expr = d.survivor.expr := by
  induction columns generalizing found with
  | nil => exact .inl member
  | cons b rest ih =>
    rcases ih member with member | ⟨stays, c, inside, equal⟩
    · split at member
      · exact .inl member
      · rcases addEqual_mem member with member | ⟨same, c, inside, equal⟩
        · exact .inl member
        · exact .inr ⟨same ▸ List.mem_cons_self, c, inside, same ▸ equal⟩
    · exact .inr ⟨List.mem_cons_of_mem _ stays, c, List.mem_of_mem_tail inside, equal⟩

theorem of_mem {s : Select Node} (member : d ∈ of s) :
    d.survivor ∈ s.columns ∧ ∃ c ∈ s.columns.tail, c.name = d.name ∧ c.expr = d.survivor.expr :=
  (collect_mem member).resolve_left List.not_mem_nil

theorem addEqual_names (once : (found.map (·.name)).Nodup) : ((addEqual b found later).map (·.name)).Nodup := by
  induction later generalizing found with
  | nil => exact once
  | cons c later ih =>
    rw [addEqual_cons]
    apply ih
    split
    next equal =>
      -- Only what is not dropped yet is added.
      have other : c.name ∉ found.map (·.name) := by
        rw [← drops_iff, Bool.not_eq_true]
        simpa using (Bool.and_eq_true_iff.mp equal).1
      rw [List.map_append]
      exact List.nodup_append'.mpr ⟨once, by simp, by simpa using other⟩
    next => exact once

/-- What has been dropped while `rest` is still to be gone through: each column once, in favour of one that stays. -/
structure Settled (rest : List (Binding Node)) (found : List Duplicate) : Prop where
  once : (found.map (·.name)).Nodup
  stays : ∀ d ∈ found, d.survivor.name ∉ found.map (·.name)
  passed : ∀ d ∈ found, d.survivor.name ∉ rest.map (·.name)

theorem Settled.next {rest : List (Binding Node)} (settled : Settled (b :: rest) found)
    (names : ((b :: rest).map (·.name)).Nodup) :
    Settled rest (if drops found b.name then found else addEqual b found rest) := by
  have passed : ∀ d ∈ found, d.survivor.name ∉ rest.map (·.name) :=
    fun d member inRest => settled.passed d member (List.mem_cons_of_mem _ inRest)
  split
  next => exact ⟨settled.once, settled.stays, passed⟩
  next kept =>
    -- Both what survived before and `b` are neither dropped so far nor still to come.
    have apart : ∀ d ∈ addEqual b found rest,
        d.survivor.name ∉ found.map (·.name) ∧ d.survivor.name ∉ rest.map (·.name) := by
      intro d member
      rcases addEqual_mem member with before | ⟨same, -⟩
      · exact ⟨settled.stays d before, passed d before⟩
      · rw [same]
        exact ⟨fun gone => kept (drops_iff.mpr gone), (List.nodup_cons.mp names).1⟩
    refine ⟨addEqual_names settled.once, fun d member gone => ?_, fun d member => (apart d member).2⟩
    obtain ⟨other, dropped, named⟩ := List.mem_map.mp gone
    rcases addEqual_mem dropped with before | ⟨-, c, inRest, sameName, -⟩
    · exact (apart d member).1 (List.mem_map.mpr ⟨other, before, named⟩)
    · exact (apart d member).2 (List.mem_map.mpr ⟨c, inRest, sameName.trans named⟩)

theorem collect_settled {columns : List (Binding Node)} (names : (columns.map (·.name)).Nodup)
    (settled : Settled columns found) : Settled [] (collect columns found) := by
  induction columns generalizing found with
  | nil => exact settled
  | cons b rest ih => exact ih (List.nodup_cons.mp names).2 (settled.next names)

theorem of_settled {s : Select Node} (names : (s.columns.map (·.name)).Nodup) : Settled [] (of s) :=
  collect_settled names ⟨by simp, nofun, nofun⟩

end Duplicate

namespace Dropped

/-- The column of the select that is dropped, with the one that stays. -/
def duplicate? (dropped : Dropped) (label name : String) : Option Duplicate :=
  (dropped.of? label).bind fun found => found.find? (·.name == name)

def keeps (dropped : Dropped) (label name : String) : Bool := (dropped.duplicate? label name).isNone

/-- A reference, turned to the equal column that stays. -/
def turn (dropped : Dropped) (c : Column) : Column :=
  ((dropped.duplicate? c.label c.name).map fun d =>
    ⟨c.label, d.survivor.name, d.survivor.expr.dataType⟩).getD c

def trim (dropped : Dropped) (q : Select Node) : Select Node :=
  { q with columns := q.columns.filter fun b => dropped.keeps q.label b.name }

def redirect (dropped : Dropped) : Node → Node :=
  Node.mapUp fun
    | .column c => .column (dropped.turn c)
    | .select q => .select (dropped.trim q)
    | n => n

variable {dropped : Dropped} {label name : String} {c : Column} {d : Duplicate}

theorem redirect_column (dropped : Dropped) (c : Column) :
    dropped.redirect (.column c) = .column (dropped.turn c) := rfl

theorem redirect_select (dropped : Dropped) (q : Select Node) :
    dropped.redirect (.select q) = .select (dropped.trim (q.map dropped.redirect)) := by
  unfold redirect
  rw [Node.mapUp_mk]
  rfl

theorem redirect_other (dropped : Dropped) {s : Shape Node} (notColumn : s.kind ≠ .column)
    (notSelect : s.kind ≠ .select) : dropped.redirect (.mk s) = .mk (s.map dropped.redirect) := by
  unfold redirect
  rw [Node.mapUp_mk]
  cases s <;> first | rfl | contradiction

theorem redirect_kind (dropped : Dropped) (s : Shape Node) : (dropped.redirect (.mk s)).shape.kind = s.kind := by
  unfold redirect
  rw [Node.mapUp_mk]
  cases s <;> rfl

theorem trim_map (dropped : Dropped) (q : Select Node) (f : Node → Node) :
    dropped.trim (q.map f) = (dropped.trim q).map f := by
  simp [trim, Select.map, List.filter_map, Function.comp_def, Binding.map]

theorem dropColumns_select (dropped : Dropped) (q : Select Node) :
    dropColumns dropped (.select q) = .select (dropped.trim q) := by
  have all : q.columns.filter (fun _ => true) = q.columns := List.filter_eq_self.mpr fun _ _ => rfl
  have gone (found : List Duplicate) (name : String) :
      (!Duplicate.drops found name) = (found.find? (·.name == name)).isNone := by
    rw [Duplicate.drops, ← List.isSome_find?, Option.not_isSome]
  unfold dropColumns trim keeps duplicate?
  dsimp only
  split
  next found listed => simp only [listed, Option.bind_some, gone]
  next none => simp only [none, Option.bind_none, Option.isNone_none, all]

/-- Each label stands once, with columns that are each dropped once, in favour of one that stays. -/
structure Sound (dropped : Dropped) : Prop where
  labels : (dropped.map Prod.fst).Nodup
  settled : ∀ e ∈ dropped, Duplicate.Settled [] e.2

theorem insert_labels (once : (dropped.map Prod.fst).Nodup) (s : Select Node) :
    ((dropped.insert s).map Prod.fst).Nodup := by
  unfold insert
  split
  next => exact once
  next =>
    rw [List.map_cons, List.nodup_cons]
    constructor
    · simp
    · exact once.sublist (List.filter_sublist.map _)

theorem find_sound {n : Node} (names : ∀ q ∈ n.queries, (q.columns.map (·.name)).Nodup) : (find n).Sound where
  labels := List.foldlRecOn (motive := fun dropped : Dropped => (dropped.map Prod.fst).Nodup) (sources n) insert
    List.nodup_nil fun _ once s _ => insert_labels once s
  settled := by
    intro e member
    obtain ⟨s, source, rfl⟩ := find_mem member
    exact Duplicate.of_settled (names s (Node.mem_queries.mpr (sources_mem source)))

namespace Sound

theorem listed (sound : dropped.Sound) {found : List Duplicate} :
    dropped.of? label = some found ↔ (label, found) ∈ dropped := by
  rw [of?, Option.map_eq_some_iff]
  constructor
  · rintro ⟨e, here, rfl⟩
    obtain ⟨member, rfl⟩ := (find_keyed sound.labels).mp here
    exact member
  · exact fun member => ⟨_, (find_keyed sound.labels).mpr ⟨member, rfl⟩, rfl⟩

theorem duplicate_iff (sound : dropped.Sound) :
    dropped.duplicate? label name = some d ↔ ∃ found, (label, found) ∈ dropped ∧ d ∈ found ∧ d.name = name := by
  rw [duplicate?, Option.bind_eq_some_iff]
  apply exists_congr
  intro found
  rw [sound.listed]
  exact and_congr_right fun member => find_keyed (sound.settled _ member).once

theorem survivor_kept (sound : dropped.Sound) (duplicate : dropped.duplicate? label name = some d) :
    dropped.duplicate? label d.survivor.name = none := by
  obtain ⟨found, member, inside, -⟩ := sound.duplicate_iff.mp duplicate
  rw [Option.eq_none_iff_forall_not_mem]
  intro again gone
  obtain ⟨found', member', inside', named⟩ := sound.duplicate_iff.mp gone
  have one := List.inj_on_of_nodup_map sound.labels member member' rfl
  cases one
  exact (sound.settled _ member).stays d inside (List.mem_map.mpr ⟨again, inside', named⟩)

theorem turn_kept (sound : dropped.Sound) (c : Column) :
    dropped.duplicate? (dropped.turn c).label (dropped.turn c).name = none := by
  unfold turn
  cases duplicate : dropped.duplicate? c.label c.name with
  | none => exact duplicate
  | some d => exact sound.survivor_kept duplicate

/-- The mapping of a select tells of a dropped column the one that stays. -/
theorem mapping_expr {found : List Duplicate} (once : (found.map (·.name)).Nodup) (label name : String) :
    (mapping label found).expr? name =
      (found.find? (·.name == name)).map fun d => .column ⟨label, d.survivor.name, d.survivor.expr.dataType⟩ := by
  have names : ((mapping label found).columns.map (·.name)).Nodup := by
    simpa [mapping, Duplicate.redirect, Function.comp_def] using once
  rw [Mapping.expr_first names]
  simp [mapping, Duplicate.redirect, Function.comp_def]

/-- The mappings of dropped columns tell of a reference what it turns to. -/
theorem resolve (sound : dropped.Sound) (c : Column) :
    (dropped.map fun (label, found) => mapping label found).findSome? (·.resolve? c) =
      (dropped.duplicate? c.label c.name).map fun _ => .column (dropped.turn c) := by
  have entry {found : List Duplicate} (member : (c.label, found) ∈ dropped) : (mapping c.label found).resolve? c =
      (dropped.duplicate? c.label c.name).map fun _ => .column (dropped.turn c) := by
    have same : dropped.duplicate? c.label c.name = found.find? (·.name == c.name) := by
      rw [duplicate?, sound.listed.mpr member, Option.bind_some]
    rw [Mapping.resolve?, if_pos (by simp [mapping]), mapping_expr (sound.settled _ member).once, turn, same]
    cases found.find? (·.name == c.name) <;> rfl
  apply Mapping.findSome_agree
  · intro m member
    obtain ⟨⟨label, found⟩, listed, rfl⟩ := List.mem_map.mp member
    by_cases same : label = c.label
    · subst label
      exact .inr (entry listed)
    -- A mapping of another label resolves nothing.
    · exact .inl (if_neg (by simpa [mapping] using Ne.symm same))
  · cases duplicate : dropped.duplicate? c.label c.name with
    | none => exact .inl rfl
    | some d =>
      obtain ⟨found, listed, -⟩ := sound.duplicate_iff.mp duplicate
      rw [← duplicate]
      exact .inr ⟨_, List.mem_map_of_mem listed, entry listed⟩

/-- Columns may be dropped while references turn, and a reference turns once. -/
theorem mergeEqual_redirect {n : Node} (sound : (find n).Sound) : mergeEqual n = (find n).redirect n := by
  unfold mergeEqual Node.remap
  dsimp only
  generalize find n = dropped at sound ⊢
  generalize turns : (dropped.map fun (label, found) => mapping label found) = mappings
  have resolve := sound.resolve
  rw [turns] at resolve
  obtain ⟨depth, enough⟩ : ∃ depth, Mapping.maxDepth mappings = depth + 1 :=
    Nat.exists_eq_add_one.mpr (Nat.mul_pos (Nat.succ_pos _) (Nat.succ_pos _))
  rw [enough]
  induction n using Node.inductNode with
  | step s ih =>
    have below : (s.map (Node.mapUp (dropColumns dropped))).map (Mapping.follow mappings (depth + 1)) =
        s.map dropped.redirect := by
      rw [Shape.map_map]
      exact Shape.map_congr ih
    rw [Node.mapUp_mk]
    cases s with
    | column c =>
      show Mapping.follow _ _ (.column c) = .column (dropped.turn c)
      -- What a reference turns to is resolved no further, so the steps that are left change nothing.
      have kept : mappings.findSome? (·.resolve? (dropped.turn c)) = none := by
        rw [resolve, sound.turn_kept]
        rfl
      rw [Mapping.follow_column, resolve]
      cases duplicate : dropped.duplicate? c.label c.name with
      | none => simp [turn, duplicate]
      | some d => exact Mapping.follow_kept kept depth
    | select q =>
      show Mapping.follow _ _ (dropColumns dropped (.select (q.map _))) = _
      have both : (q.map (Node.mapUp (dropColumns dropped))).map (Mapping.follow mappings (depth + 1)) =
        q.map dropped.redirect := Shape.select.inj below
      -- Columns are dropped by their names, which the references inside them have no part in.
      rw [dropColumns_select, Mapping.follow_mk _ _ (by simp [Shape.kind]), redirect_select]
      show Node.select ((dropped.trim _).map _) = _
      rw [← trim_map, both]
    | _ =>
      rw [redirect_other dropped (by simp [Shape.kind]) (by simp [Shape.kind]), ← below]
      exact Mapping.follow_mk _ _ (by simp [Shape.kind, Shape.map])

end Sound

/-! ### The tree that is left -/

/-- For every column of a select there is one that stays, of the same expression, to which references turn. -/
def Covers (dropped : Dropped) (q : Select Node) : Prop :=
  ∀ b ∈ q.columns, ∃ k ∈ q.columns, dropped.keeps q.label k.name = true ∧ k.expr = b.expr ∧
    ∀ type, (dropped.turn ⟨q.label, b.name, type⟩).name = k.name

theorem turn_label (dropped : Dropped) (c : Column) : (dropped.turn c).label = c.label := by
  unfold turn
  cases dropped.duplicate? c.label c.name <;> rfl

theorem covers_of_labels {n : Node} (labels : (n.queries.map (·.label)).Nodup)
    (names : ∀ q ∈ n.queries, (q.columns.map (·.name)).Nodup) {q : Select Node} (inTree : q ∈ n.queries) :
    (find n).Covers q := by
  have sound := find_sound names
  intro b column
  unfold keeps turn
  cases duplicate : (find n).duplicate? q.label b.name with
  | none => exact ⟨b, column, by rw [duplicate]; rfl, rfl, fun _ => by simp [duplicate]⟩
  | some d =>
    obtain ⟨found, listed, inside, named⟩ := sound.duplicate_iff.mp duplicate
    obtain ⟨s, source, same⟩ := find_mem listed
    obtain ⟨label, rfl⟩ := Prod.mk.inj same
    obtain rfl := Node.query_unique labels (Node.mem_queries.mp inTree) (sources_mem source) label
    obtain ⟨stays, c, later, sameName, equal⟩ := Duplicate.of_mem inside
    -- Names are distinct, so the dropped column is `b`.
    obtain rfl := List.inj_on_of_nodup_map (names _ inTree) (List.mem_of_mem_tail later) column (sameName.trans named)
    exact ⟨d.survivor, stays, by rw [sound.survivor_kept duplicate]; rfl, equal.symm, fun _ => by simp [duplicate]⟩

theorem mem_trim {q : Select Node} {b : Binding Node} :
    b ∈ (dropped.trim q).columns ↔ b ∈ q.columns ∧ dropped.keeps q.label b.name = true := List.mem_filter

theorem children_trim {q : Select Node} (covers : dropped.Covers q) {c : Node} :
    c ∈ (dropped.trim q).children ↔ c ∈ q.children := by
  rw [Select.mem_children, Select.mem_children]
  apply or_congr_left
  constructor
  · rintro ⟨b, column, rfl⟩
    exact ⟨b, (mem_trim.mp column).1, rfl⟩
  · rintro ⟨b, column, rfl⟩
    obtain ⟨k, stays, kept, equal, -⟩ := covers b column
    exact ⟨k, mem_trim.mpr ⟨stays, kept⟩, equal⟩

theorem trim_nonempty {q : Select Node} (covers : dropped.Covers q) (some : q.columns ≠ []) :
    (dropped.trim q).columns ≠ [] := by
  obtain ⟨b, column⟩ := List.exists_mem_of_ne_nil _ some
  obtain ⟨k, stays, kept, -⟩ := covers b column
  exact List.ne_nil_of_mem (mem_trim.mpr ⟨stays, kept⟩)

section Covered

variable {n : Node} (covers : ∀ q ∈ n.queries, dropped.Covers q)

include covers

/-- Nothing is lost: the parts of the tree that is left are the parts there were. -/
theorem mem_redirect {m : Node} :
    m ∈ (dropped.redirect n).subtrees ↔ ∃ before ∈ n.subtrees, dropped.redirect before = m := by
  induction n using Node.inductNode with
  | step s ih =>
    -- Layer by layer, for a column that is dropped shares its expression with one that stays.
    have below : ∀ c ∈ s.children, ∀ q ∈ c.queries, dropped.Covers q := by
      intro c child q inside
      apply covers q
      rw [Node.mem_queries] at inside ⊢
      exact Node.mem_subtrees_of_child child inside
    have children (m : Node) :
        m ∈ (dropped.redirect (.mk s)).shape.children ↔ ∃ c ∈ s.children, dropped.redirect c = m := by
      cases s with
      | column c => simp [redirect_column, Shape.children]
      | select q =>
        have own := covers q (Node.mem_queries.mpr (Node.self_mem_subtrees _))
        rw [redirect_select, trim_map]
        show m ∈ ((dropped.trim q).map dropped.redirect).children ↔ _
        rw [Select.children_map, List.mem_map]
        exact exists_congr fun c => and_congr_left fun _ => children_trim own
      | _ =>
        rw [redirect_other dropped (by simp [Shape.kind]) (by simp [Shape.kind]), Node.shape_mk, Shape.children_map,
          List.mem_map]
    rw [← Node.mk_shape (dropped.redirect _), Node.subtrees_mk, Node.subtrees_mk, Node.mk_shape, List.mem_cons,
      List.mem_flatMap]
    constructor
    · rintro (rfl | ⟨c', child, inside⟩)
      · exact ⟨_, List.mem_cons_self, rfl⟩
      · obtain ⟨c, part, rfl⟩ := (children c').mp child
        obtain ⟨before, within, rfl⟩ := (ih c part (below c part)).mp inside
        exact ⟨before, List.mem_cons_of_mem _ (List.mem_flatMap.mpr ⟨c, part, within⟩), rfl⟩
    · rintro ⟨before, inside, rfl⟩
      rcases List.mem_cons.mp inside with rfl | inside
      · exact .inl rfl
      · obtain ⟨c, child, inside⟩ := List.mem_flatMap.mp inside
        exact .inr ⟨_, (children _).mpr ⟨c, child, rfl⟩, (ih c child (below c child)).mpr ⟨before, inside, rfl⟩⟩

theorem queries_redirect {p : Select Node} :
    p ∈ (dropped.redirect n).queries ↔ ∃ q ∈ n.queries, dropped.trim (q.map dropped.redirect) = p := by
  rw [Node.mem_queries, mem_redirect covers]
  constructor
  · rintro ⟨⟨s⟩, inTree, left⟩
    have kind := redirect_kind dropped s
    rw [left] at kind
    cases s with
    | select q =>
      rw [redirect_select] at left
      exact ⟨q, Node.mem_queries.mpr inTree, Shape.select.inj (Node.mk.inj left)⟩
    | _ => cases kind
  · rintro ⟨q, inTree, rfl⟩
    exact ⟨.select q, Node.mem_queries.mp inTree, redirect_select dropped q⟩

theorem column_redirect (left : .column c ∈ (dropped.redirect n).subtrees) :
    ∃ before, .column before ∈ n.subtrees ∧ dropped.turn before = c := by
  obtain ⟨⟨s⟩, inTree, same⟩ := (mem_redirect covers).mp left
  have kind := redirect_kind dropped s
  rw [same] at kind
  cases s with
  | column before => exact ⟨before, inTree, Shape.column.inj (Node.mk.inj same)⟩
  | _ => cases kind

theorem declares_redirect {e : Node} (declared : n.Declares c e) (kept : dropped.keeps c.label c.name = true) :
    (dropped.redirect n).Declares c (dropped.redirect e) := by
  obtain ⟨q, inTree, label, b, column, name, rfl⟩ := declared
  refine ⟨_, (queries_redirect covers).mpr ⟨q, inTree, rfl⟩, label, b.map dropped.redirect, ?_, name, rfl⟩
  rw [mem_trim]
  refine ⟨List.mem_map_of_mem column, ?_⟩
  show dropped.keeps q.label b.name = true
  rwa [label, name]

/-- A reference turns to a column of the same expression. -/
theorem declares_turn {e : Node} (declared : n.Declares c e) :
    n.Declares (dropped.turn c) e ∧ dropped.keeps (dropped.turn c).label (dropped.turn c).name = true := by
  obtain ⟨q, inTree, label, b, column, name, rfl⟩ := declared
  obtain ⟨k, stays, kept, equal, turns⟩ := covers q inTree b column
  have turned : (dropped.turn c).name = k.name := by
    rw [← turns c.type, label, name]
  rw [turn_label, turned, ← label]
  exact ⟨⟨q, inTree, label.trans (turn_label dropped c).symm, k, stays, turned.symm, equal⟩, kept⟩

end Covered

theorem root_keeps {q : Select Node} (labels : ((Node.select q).queries.map (·.label)).Nodup) (name : String) :
    (find (.select q)).keeps q.label name = true := by
  rw [keeps, duplicate?, find_other (Node.presents_root labels)]
  rfl

/-- Equal columns merged: the columns of each select that are left, and what references to columns come to. -/
structure Merges (dropped : Dropped) (n merged : Node) : Prop where
  redirected : merged = dropped.redirect n
  /-- The outermost select declares what it declared. -/
  result : ∀ q, n = .select q → ∃ p, merged = .select p ∧ p.label = q.label ∧
    p.columns = q.columns.map (·.map dropped.redirect)
  selects : ∀ q ∈ n.queries, ∃ p ∈ merged.queries, p.label = q.label ∧
    p.columns.Sublist (q.columns.map (·.map dropped.redirect)) ∧ (q.columns ≠ [] → p.columns ≠ [])
  /-- A reference turns to a column of the same select, declared by the same expression, and that one stays. -/
  declared : ∀ c e, n.Declares c e → (dropped.turn c).label = c.label ∧ n.Declares (dropped.turn c) e ∧
    merged.Declares (dropped.turn c) (dropped.redirect e)
  unambiguous : ∀ c e e', merged.Declares c e → merged.Declares c e' → e = e'
  /-- No reference that is left names a dropped column. -/
  referred : ∀ c e, .column c ∈ merged.subtrees → n.Declares c e → merged.Declares c (dropped.redirect e)

end Dropped

/-- Where labels are distinct, and names in each select, merging equal columns leaves every reference one that names an
equal column. -/
theorem equalColumns_merges {n : Node} (labels : (n.queries.map (·.label)).Nodup)
    (names : ∀ q ∈ n.queries, (q.columns.map (·.name)).Nodup) :
    (Dropped.find n).Merges n (equalColumns.transform n) := by
  have sound := Dropped.find_sound names
  have covers : ∀ q ∈ n.queries, (Dropped.find n).Covers q := fun _ => Dropped.covers_of_labels labels names
  have redirected : equalColumns.transform n = (Dropped.find n).redirect n := sound.mergeEqual_redirect
  rw [redirected]
  constructor
  case redirected => rfl
  case result =>
    rintro q rfl
    refine ⟨_, Dropped.redirect_select _ q, rfl, ?_⟩
    apply List.filter_eq_self.mpr
    intro b _
    exact Dropped.root_keeps labels b.name
  case selects =>
    intro q inTree
    refine ⟨_, (Dropped.queries_redirect covers).mpr ⟨q, inTree, rfl⟩, rfl, List.filter_sublist, fun some => ?_⟩
    rw [Dropped.trim_map]
    simpa [Select.map] using Dropped.trim_nonempty (covers q inTree) some
  case declared =>
    intro c e declared
    obtain ⟨stays, kept⟩ := Dropped.declares_turn covers declared
    exact ⟨Dropped.turn_label _ c, stays, Dropped.declares_redirect covers stays kept⟩
  case unambiguous =>
    rintro c e e' ⟨p, left, label, b, column, name, rfl⟩ ⟨p', left', label', b', column', name', rfl⟩
    obtain ⟨q, inTree, rfl⟩ := (Dropped.queries_redirect covers).mp left
    obtain ⟨q', inTree', rfl⟩ := (Dropped.queries_redirect covers).mp left'
    -- One label is one select, and one name one column of it.
    obtain rfl := List.inj_on_of_nodup_map labels inTree inTree' (label.trans label'.symm)
    have distinct : ((q.map (Dropped.find n).redirect).columns.map (·.name)).Nodup := by
      rw [Select.names_map]
      exact names q inTree
    rw [List.inj_on_of_nodup_map distinct (Dropped.mem_trim.mp column).1 (Dropped.mem_trim.mp column').1
      (name.trans name'.symm)]
  case referred =>
    intro c e left declared
    obtain ⟨before, -, rfl⟩ := Dropped.column_redirect covers left
    apply Dropped.declares_redirect covers declared
    rw [Dropped.keeps, sound.turn_kept]
    rfl

/-- Of three equal columns the first stays, and references to all three name it. -/
theorem equalColumns_merges_upper :
    let upper : Node := .call .upper [.column ⟨"t0", "name", .text⟩] .text
    let inner (columns : List (Binding Node)) : Node := .select
      { label := "s1", columns := columns ++ [⟨"id", .column ⟨"t0", "id", .int32⟩⟩]
        source := some (.table "T" "t0" .void) }
    let outer (source : Node) (x y z : String) : Node := .select
      { label := "s0", columns := [⟨"x", .column ⟨"s1", x, .text⟩⟩, ⟨"y", .column ⟨"s1", y, .text⟩⟩]
        source := some source, filter := some (.unary .isNotNull (.column ⟨"s1", z, .text⟩) .boolean) }
    let before := outer (inner [⟨"a", upper⟩, ⟨"b", upper⟩, ⟨"c", upper⟩]) "b" "a" "c"
    (before.queries.map (·.label)).Nodup ∧ (∀ q ∈ before.queries, (q.columns.map (·.name)).Nodup) ∧
      (Dropped.find before).Merges before (equalColumns.transform before) ∧
      equalColumns.transform before = outer (inner [⟨"a", upper⟩]) "a" "a" "a" := by
  intro upper inner outer before
  have labels : (before.queries.map (·.label)).Nodup := by decide +kernel
  have names : ∀ q ∈ before.queries, (q.columns.map (·.name)).Nodup := by decide +kernel
  exact ⟨labels, names, equalColumns_merges labels names, Node.eq_of_alike (by decide +kernel)⟩

end Pass

end QueryTree
