import QueryTree.Pass.Folding
import QueryTree.Proofs.Rows.Closing

/-! Merging source selects keeps the rows.

References to a select that is taken into its parent are left as they are at first and followed in the end, through
as many selects as were taken in. So the rows of what a chain of selects has become are told by how its columns read
once they are followed: a column of a select that is gone reads as what the select gave.
-/

set_option autoImplicit false

namespace QueryTree

variable {mappings : List Mapping} {depth steps : Nat} {scope : Column → Bool} {n : Node} {c : Column}

/-! ### Where following comes to its end -/

namespace Mapping

/-- Following references further changes nothing. -/
def Settles (mappings : List Mapping) (steps : Nat) (n : Node) : Prop :=
  ∀ depth, steps ≤ depth → follow mappings depth n = follow mappings steps n

theorem Settles.mono {more : Nat} (settles : Settles mappings steps n) (within : steps ≤ more) :
    Settles mappings more n :=
  fun depth enough => (settles depth (within.trans enough)).trans (settles more within).symm

theorem settles_kept (none : mappings.findSome? (·.resolve? c) = none) : Settles mappings 0 (.column c) :=
  fun depth _ => (follow_kept none depth).trans (follow_kept none 0).symm

theorem settles_found {meaning : Node} (found : mappings.findSome? (·.resolve? c) = some meaning)
    (settles : Settles mappings steps meaning) : Settles mappings (steps + 1) (.column c) := by
  intro depth enough
  obtain ⟨more, rfl⟩ := Nat.exists_eq_add_of_le' enough
  rw [← Nat.add_assoc, follow_found found, follow_found found]
  exact settles _ (Nat.le_add_left _ _)

theorem settles_bound (scope : Column → Bool) (each : ∀ c, scope c = true → Settles mappings steps (.column c))
    (bound : n.isBound scope = true) : Settles mappings steps n := by
  refine Node.isBound_induct (P := Settles mappings steps) each (fun s _ notColumn below => ?_) bound
  intro depth enough
  rw [follow_mk _ _ notColumn, follow_mk _ _ notColumn, Shape.map_congr fun c child => below c child depth enough]

/-- A column that stands for something becomes what that becomes. -/
theorem follow_meaning {meaning : Node} (found : mappings.findSome? (·.resolve? c) = some meaning)
    (settles : Settles mappings steps meaning) (enough : steps < depth) :
    follow mappings depth (.column c) = follow mappings depth meaning := by
  obtain ⟨before, rfl⟩ := Nat.exists_eq_add_of_le' (Nat.lt_of_le_of_lt (Nat.zero_le _) enough)
  rw [follow_found found, settles before (Nat.le_of_lt_succ enough), settles (before + 1) (Nat.le_of_lt enough)]

end Mapping

/-! ### Rows of a chain -/

namespace Engine

open Mapping

variable (e : Engine) {q : Select Node} {r : Relation}

theorem relation_select : e.relation? (.select q) = some r ↔ ∃ base label source, q.source = some base ∧
    base.sourceLabel? = some label ∧ e.relation? base = some source ∧
    q.Simple (Column.inScope label source.names) ∧ e.answer byName q source = r := by
  have kept : (q.map fun c => (c, e.relation? c)).map Prod.fst = q :=
    Shape.select.inj ((Shape.map_map _ _ (.select q)).trans (Shape.map_id _))
  have layer : e.relation? (.select q) = q.source.bind fun base => base.sourceLabel?.bind fun label =>
      (e.relation? base).bind fun source =>
        if q.isSimple (Column.inScope label source.names) then some (e.answer byName q source) else none := by
    refine (Node.para_mk _ (.select q)).trans ?_
    show ((q.source.map fun c => (c, e.relation? c)).bind fun p => _) = _
    rw [Option.bind_map]
    dsimp only [Function.comp_def]
    -- `kept` is about the same recursion, which has to be spelled out for the rewrite to find it.
    unfold relation? at kept
    rw [kept]
    rfl
  simp only [layer, Option.bind_eq_some_iff, Option.ite_none_right_eq_some, Select.isSimple_iff, Option.some.injEq]
  constructor
  · rintro ⟨base, reads, label, named, source, rows, simple, same⟩
    exact ⟨base, label, source, reads, named, rows, simple, same⟩
  · rintro ⟨base, label, source, reads, named, rows, simple, same⟩
    exact ⟨base, reads, label, named, source, rows, simple, same⟩

theorem relation_source (rows : e.relation? n = some r) :
    (∃ name label type, n = .table name label type) ∨ ∃ q, n = .select q := by
  obtain ⟨s⟩ := n
  unfold relation? at rows
  rw [Node.para_mk] at rows
  cases s with
  | table name label type => exact .inl ⟨name, label, type, rfl⟩
  | select q => exact .inr ⟨q, rfl⟩
  | _ => cases rows

/-- A select has rows over what its source becomes. -/
theorem relation_follow {f : Select Node} {base : Node} {owner : String} {source : Relation}
    (noWildcard : NoWildcard mappings) (reads : f.source = some base) (owns : base.sourceLabel? = some owner)
    (rows : e.relation? (follow mappings depth base) = some source)
    (simple : f.Simple (closedScope mappings depth (Column.inScope owner source.names))) :
    e.relation? (follow mappings depth (.select f)) = some (e.answer (closedReading e mappings depth) f source) := by
  have label : (follow mappings depth base).sourceLabel? = some owner := by
    rw [← owns]
    obtain ⟨s⟩ := base
    cases s with
    | table | select => rw [follow_mk _ _ (by simp [Shape.kind])]; rfl
    | _ => cases owns
  rw [follow_mk _ _ (by simp [Shape.kind])]
  refine e.relation_select.mpr ⟨_, owner, source, ?_, label, rows, simple.follow noWildcard, ?_⟩
  · simp [Select.map, reads]
  · exact e.answer_follow noWildcard simple source

end Engine

def Node.orderings (n : Node) : Nat := n.queries.countP fun q => !q.orderBy.isEmpty

open Mapping Engine

/-- What a select with these rows has become once the selects below it are merged, with references to be followed:
a select of the same columns, over a base that is no longer mapped. -/
structure Flattened (e : Engine) (mappings : List Mapping) (depth steps : Nat) (q : Select Node) (r : Relation)
    (f : Select Node) (base : Node) (owner : String) (source : Relation) : Prop where
  label : f.label = q.label
  columns : f.columns = q.columns
  reads : f.source = some base
  owns : base.sourceLabel? = some owner
  unmapped : ∀ c : Column, c.label = owner → mappings.findSome? (·.resolve? c) = none
  rowsBelow : e.relation? (follow mappings depth base) = some source
  simple : f.Simple (closedScope mappings depth (Column.inScope owner source.names))
  names : (e.answer (closedReading e mappings depth) f source).names = r.names
  rows : (e.answer (closedReading e mappings depth) f source).rows.Perm r.rows
  sameRows : (Node.select q).orderings ≤ 1 → (e.answer (closedReading e mappings depth) f source).rows = r.rows
  settled : ∀ b ∈ f.columns, b.isWildcard = false → Settles mappings steps b.expr
  unordered : (Node.select q).orderings = 0 → f.orderBy = []

section Levels

variable {e : Engine} {q f : Select Node} {r source : Relation} {base : Node} {owner label : String}

theorem unmapped_reading (e : Engine) (depth : Nat) (names : String → Bool) (unmapped : ∀ c : Column, c.label = owner →
      mappings.findSome? (·.resolve? c) = none) :
    (∀ c, Column.inScope owner names c = true → closedScope mappings depth (Column.inScope owner names) c = true) ∧
      ReadsAs (Column.inScope owner names) (closedReading e mappings depth) byName id := by
  have kept {c : Column} (inScope : Column.inScope owner names c = true) : follow mappings depth (.column c) = .column c :=
    follow_kept (unmapped c (by simpa using (Bool.and_eq_true_iff.mp inScope).1)) depth
  constructor
  · intro c inScope
    rw [closedScope, kept inScope, Node.isBound_column, inScope]
  · intro c inScope r
    rw [closedReading, kept inScope]
    exact Node.evaluate_column _ _ _

theorem queries_select (simple : q.Simple scope) (reads : q.source = some base) :
    (Node.select q).queries = q :: base.queries := by
  rw [Node.queries_mk]
  refine congrArg (q :: ·) ((simple.flatMap_children Node.queries fun n => Node.queries_ofBound).trans ?_)
  simp [reads]

theorem orderings_select (simple : q.Simple scope) (reads : q.source = some base) :
    (Node.select q).orderings = base.orderings + if q.orderBy = [] then 0 else 1 := by
  unfold Node.orderings
  rw [queries_select simple reads, List.countP_cons]
  simp

theorem unordered_ofZero (none : (Node.select q).orderings = 0) : q.orderBy = [] := by
  unfold Node.orderings at none
  rw [List.countP_eq_zero] at none
  simpa using none q (by rw [Node.queries_mk]; exact List.mem_cons_self)

theorem Flattened.stays {below : Relation} (owns : base.sourceLabel? = some owner)
    (unmapped : ∀ c : Column, c.label = owner → mappings.findSome? (·.resolve? c) = none)
    (rowsBelow : e.relation? (follow mappings depth base) = some source) (names : source.names = below.names)
    (rows : source.rows.Perm below.rows) (sameRows : (Node.select q).orderings ≤ 1 → source.rows = below.rows)
    (simple : q.Simple (Column.inScope owner below.names)) :
    Flattened e mappings depth steps q (e.answer byName q below) { q with source := some base } base owner source := by
  rw [← names] at simple
  obtain ⟨readable, agree⟩ := unmapped_reading e depth source.names unmapped
  -- Nothing is mapped to the base, so its columns read as they are.
  have closed : e.answer (closedReading e mappings depth) { q with source := some base } source = e.answer byName q source :=
    e.answer_agree agree simple source
  refine
    { label := rfl
      columns := rfl
      reads := rfl
      owns
      unmapped
      rowsBelow
      simple := (simple.mono readable).withSource _
      names := ?_
      rows := ?_
      sameRows := fun few => ?_
      settled := fun b column named => ?_
      unordered := unordered_ofZero }
  · rw [closed]
    exact (e.answer_perm byName q names rows).1
  · rw [closed]
    exact (e.answer_perm byName q names rows).2
  · rw [closed]
    exact e.answer_rows q (sameRows few)
  · refine settles_bound (Column.inScope owner source.names) (fun c inScope => ?_) ?_
    · exact (settles_kept (unmapped c (by simpa using (Bool.and_eq_true_iff.mp inScope).1))).mono (Nat.zero_le _)
    · rcases simple.columns with wild | ⟨-, each⟩
      · rw [(Select.isWildcard_column wild column).1] at named
        cases named
      · exact each b column

/-! ### A select taken into its parent -/

theorem expr_find (label : String) {bs : List (Binding Node)} (distinct : (bs.map (·.name)).Nodup) {name : String}
    (declared : bs.any (·.name == name) = true) (passthrough : Option String) :
    ∃ b ∈ bs, bs.find? (·.name == name) = some b ∧ Mapping.expr? ⟨label, bs, passthrough⟩ name = some b.expr := by
  obtain ⟨b, member, named⟩ := List.any_eq_true.mp declared
  have found : bs.find? (·.name == name) = some b := (find_keyed distinct).mpr ⟨member, beq_iff_eq.mp named⟩
  exact ⟨b, member, found, by rw [Mapping.expr_first distinct, found]; rfl⟩

theorem projectsStar_wildcard (wild : f.isWildcard = true) : f.projectsStar = true :=
  Select.projectsStar_all (List.all_eq_true.mpr fun _ column => (Select.isWildcard_column wild column).1)

theorem ofSelect_wildcard (wild : f.isWildcard = true) (reads : f.source = some base)
    (owns : base.sourceLabel? = some owner) : ofSelect? f = some ⟨f.label, [], some owner⟩ := by
  have none : f.columns.filter (fun b => !b.isWildcard) = [] :=
    List.filter_eq_nil_iff.mpr fun b column => by simp [(Select.isWildcard_column wild column).1]
  simp [ofSelect?, projectsStar_wildcard wild, reads, owns, none]

theorem named_column (named : f.projectsStar = false) {b : Binding Node} (column : b ∈ f.columns) :
    b.isWildcard = false := by
  simpa using List.any_eq_false.mp (Bool.or_eq_false_iff.mp named).2 b column

theorem ofSelect_named (named : f.projectsStar = false) : ofSelect? f = some ⟨f.label, f.columns, none⟩ := by
  have all : f.columns.filter (fun b => !b.isWildcard) = f.columns :=
    List.filter_eq_self.mpr fun b column => by simp [named_column named column]
  simp [ofSelect?, named, all]

variable {p : Select Node} {m : Mapping} {below : Relation}

/-- Once followed, the reference reads as what the select gives. -/
structure GivenBy (e : Engine) (mappings : List Mapping) (depth steps : Nat) (f : Select Node) (inside : Column → Bool)
    (c : Column) : Prop where
  bound : closedScope mappings depth inside c = true
  reads : ∀ r, closedReading e mappings depth r c = e.project (closedReading e mappings depth) f r c.name
  settles : Settles mappings (steps + 1) (.column c)

/-- Where all columns are passed on, a reference becomes one to the base, and stays so. -/
theorem Flattened.given_wildcard (flat : Flattened e mappings depth steps p below f base owner source)
    (wild : f.isWildcard = true) (enough : steps < depth) (found : mappings.findSome? (·.resolve? c) =
      resolve? ⟨f.label, [], some owner⟩ c) (sameLabel : c.label = f.label) (exposed : source.names c.name = true) :
    GivenBy e mappings depth steps f (Column.inScope owner source.names) c := by
  have meaning : mappings.findSome? (·.resolve? c) = some (.column { c with label := owner }) := by
    rw [found, resolve?, if_pos (by simp [sameLabel])]
    rfl
  have kept := flat.unmapped { c with label := owner } rfl
  have followed : follow mappings depth (.column c) = .column { c with label := owner } :=
    (follow_meaning meaning (settles_kept kept) (Nat.lt_of_le_of_lt (Nat.zero_le _) enough)).trans (follow_kept kept _)
  refine ⟨?_, fun r => ?_, (settles_found meaning (settles_kept kept)).mono (Nat.le_add_left 1 steps)⟩
  · rw [closedScope, followed, Node.isBound_column]
    simp [Column.inScope, exposed]
  · rw [closedReading, followed, e.project_wildcard wild]
    exact Node.evaluate_column _ _ _

theorem Flattened.given_named (flat : Flattened e mappings depth steps p below f base owner source)
    (named : f.projectsStar = false) (distinct : (f.columns.map (·.name)).Nodup) (enough : steps < depth)
    (found : mappings.findSome? (·.resolve? c) = resolve? ⟨f.label, f.columns, none⟩ c) (sameLabel : c.label = f.label)
    (declared : f.columns.any (·.name == c.name) = true) :
    GivenBy e mappings depth steps f (Column.inScope owner source.names) c := by
  have wild := Select.isWildcard_named named
  obtain ⟨b, column, first, last⟩ := expr_find f.label distinct declared none
  have meaning : mappings.findSome? (·.resolve? c) = some b.expr := by
    rw [found, resolve?, if_pos (by simp [sameLabel]), last]
    rfl
  have settles := flat.settled b column (named_column named column)
  have followed := follow_meaning meaning settles enough
  refine ⟨?_, fun r => ?_, settles_found meaning settles⟩
  · rw [closedScope, followed, isBound_follow]
    exact (flat.simple.columns.resolve_left (by simp [wild])).2 b column
  · rw [closedReading, followed, value_follow, Engine.project, if_neg (by simp [wild]), first]
    rfl

/-- A column of a select that was taken into its parent reads as what the select gives. -/
theorem Flattened.given (flat : Flattened e mappings depth steps p below f base owner source)
    (mapped : ofSelect? f = some m) (distinct : (f.columns.map (·.name)).Nodup) (enough : steps < depth)
    (found : ∀ c : Column, c.label = p.label → mappings.findSome? (·.resolve? c) = m.resolve? c)
    (inScope : Column.inScope p.label below.names c = true) :
    GivenBy e mappings depth steps f (Column.inScope owner source.names) c := by
  obtain ⟨sameLabel, exposed⟩ := Bool.and_eq_true_iff.mp inScope
  have sameLabel : c.label = p.label := beq_iff_eq.mp sameLabel
  have resolves := found c sameLabel
  rw [← flat.label] at sameLabel
  rw [← flat.names] at exposed
  rcases flat.simple.columns with wild | ⟨named, -⟩
  · cases mapped.symm.trans (ofSelect_wildcard wild flat.reads flat.owns)
    exact flat.given_wildcard wild enough resolves sameLabel (by simpa [answer, Select.exposed, wild] using exposed)
  · cases mapped.symm.trans (ofSelect_named named)
    refine flat.given_named named distinct enough resolves sameLabel ?_
    simpa [answer, Select.exposed, Select.isWildcard_named named] using exposed

theorem Flattened.merged (flat : Flattened e mappings depth steps p below f base owner source)
    (mapped : ofSelect? f = some m) (distinct : (f.columns.map (·.name)).Nodup) (enough : steps < depth)
    (found : ∀ c : Column, c.label = p.label → mappings.findSome? (·.resolve? c) = m.resolve? c)
    (wild : q.isWildcard = true → f.isWildcard = true) (reads : q.source = some (.select p))
    (simple : q.Simple (Column.inScope p.label below.names)) :
    Flattened e mappings depth (steps + 1) q (e.answer byName q below) (Pass.merge { q with source := some (.select f) } f)
      base owner source := by
  have given {c : Column} := flat.given (c := c) mapped distinct enough found
  have within : ∀ c, Column.inScope p.label below.names c = true →
      closedScope mappings depth (Column.inScope owner source.names) c = true := fun c inScope => (given inScope).bound
  have agree : ReadsAs (Column.inScope p.label below.names) (closedReading e mappings depth) byName
      (e.project (closedReading e mappings depth) f) := fun c inScope => (given inScope).reads
  have outer := simple.withSource (some (.select f))
  have orderings := orderings_select simple reads
  obtain ⟨rows, sameRows⟩ := e.answer_merge outer agree wild source
  have answers := e.answer_perm byName q flat.names flat.rows
  refine
    { label := rfl
      columns := rfl
      reads := flat.reads
      owns := flat.owns
      unmapped := flat.unmapped
      rowsBelow := flat.rowsBelow
      simple := merge_simple outer flat.simple within
      names := ?_
      rows := rows.trans answers.2
      sameRows := fun few => ?_
      settled := fun b column named => ?_
      unordered := fun none => ?_ }
  · refine Eq.trans ?_ answers.1
    show q.exposed source.names = q.exposed (f.exposed source.names)
    unfold Select.exposed
    cases exposes : q.isWildcard with
    | true => simp [wild exposes]
    | false => rfl
  -- Of at most one select that orders rows in the whole chain, either `q` is it or it is below.
  · have either : q.orderBy = [] ∨ f.orderBy = [] := by
      by_cases none : q.orderBy = []
      · exact .inl none
      · exact .inr (flat.unordered (by rw [if_neg none] at orderings; omega))
    exact (sameRows either).trans (e.answer_rows q (flat.sameRows (by omega)))
  · refine settles_bound (Column.inScope p.label below.names) (fun c inScope => (given inScope).settles) ?_
    rcases simple.columns with wild | ⟨-, each⟩
    · rw [(Select.isWildcard_column wild column).1] at named
      cases named
    · exact each b column
  · have noneHere : q.orderBy = [] := unordered_ofZero none
    have noneBelow : f.orderBy = [] := flat.unordered (by rw [none, if_pos noneHere] at orderings; omega)
    simp [Pass.merge, Pass.mergeOrder, noneHere, noneBelow]

/-! ### Chains -/

def Select.labelsBelow (q : Select Node) : List String := q.source.toList.flatMap Node.labels

theorem labels_select (simple : q.Simple scope) : (Node.select q).labels = q.label :: q.labelsBelow := by
  rw [Node.labels_mk]
  exact congrArg (q.label :: ·) (simple.flatMap_children Node.labels fun n => Node.labels_ofBound)

theorem flatten_select (simple : q.Simple scope) (reads : q.source = some base) : Pass.flatten (.select q) =
    (.select (Pass.flattenSelect { q with source := some (Pass.flatten base).1 }).1,
      (Pass.flatten base).2 ++ (Pass.flattenSelect { q with source := some (Pass.flatten base).1 }).2) := by
  have still (n : Node) (bound : n.isBound (fun _ => true) = true) : Pass.flatten n = (n, []) :=
    Pass.flatten_still (Node.queries_ofBound bound)
  have layer : q.map (fun c => (Pass.flatten c).1) = { q with source := some (Pass.flatten base).1 } := by
    rw [simple.map_source _ fun n bound => congrArg Prod.fst (still n bound), reads]
    rfl
  have mappings : q.children.flatMap (fun c => (Pass.flatten c).2) = (Pass.flatten base).2 := by
    rw [simple.flatMap_children _ fun n bound => congrArg Prod.snd (still n bound), reads]
    simp
  have flattened : Pass.flatten (.select q) = (.select (Pass.flattenSelect (q.map fun c => (Pass.flatten c).1)).1,
      (q.children.flatMap fun c => (Pass.flatten c).2) ++
        (Pass.flattenSelect (q.map fun c => (Pass.flatten c).1)).2) := Pass.flatten_mk (.select q)
  rw [flattened, layer, mappings]

theorem ofSelect_label (mapped : ofSelect? f = some m) : m.label = f.label := by
  simp only [ofSelect?] at mapped
  split at mapped
  · obtain ⟨owner, -, rfl⟩ := Option.map_eq_some_iff.mp mapped
    rfl
  · cases mapped
    rfl

theorem ofSelect_noWildcard (mapped : ofSelect? f = some m) : NoWildcard [m] := by
  refine List.forall_mem_singleton.mpr fun b column => ?_
  simp only [ofSelect?] at mapped
  split at mapped
  · obtain ⟨owner, -, rfl⟩ := Option.map_eq_some_iff.mp mapped
    simpa using (List.mem_filter.mp column).2
  · cases mapped
    simpa using (List.mem_filter.mp column).2

/-- A chain as it is flattened, however the references in it are followed in the end. -/
structure FlatChain (e : Engine) (q : Select Node) (r : Relation) (f : Select Node) (inner : List Mapping) : Prop where
  flattened : Pass.flatten (.select q) = (.select f, inner)
  noWildcard : NoWildcard inner
  inside : ∀ m ∈ inner, m.label ∈ q.labelsBelow
  flat : ∀ mappings depth, NoWildcard mappings → inner.length ≤ depth →
    (∀ c : Column, c.label ∈ q.labelsBelow → mappings.findSome? (·.resolve? c) = inner.findSome? (·.resolve? c)) →
      ∃ base owner source, Flattened e mappings depth inner.length q r f base owner source

theorem resolve_none {ms : List Mapping} (other : ∀ m ∈ ms, m.label ≠ c.label) : ms.findSome? (·.resolve? c) = none := by
  by_contra found
  obtain ⟨m, member, same⟩ := resolved found
  exact other m member same

theorem flatChain_table {name : String} {type : DataType}
    (reads : q.source = some (.table name label type)) (rowsBelow : e.relation? (.table name label type) = some below)
    (simple : q.Simple (Column.inScope label below.names)) :
    FlatChain e q (e.answer byName q below) { q with source := some (.table name label type) } [] := by
  have still : Pass.flatten (.table name label type) = (.table name label type, []) :=
    Pass.flatten_still (by rw [Node.queries_mk]; rfl)
  refine ⟨?_, by simp [NoWildcard], by simp, fun mappings depth _ _ agree => ?_⟩
  · rw [flatten_select simple reads, still]
    rfl
  · have inside : label ∈ q.labelsBelow := by
      simp [Select.labelsBelow, reads, Node.labels_mk, Node.sourceLabel?]
    refine ⟨_, label, below, Flattened.stays rfl (fun c same => agree c (same ▸ inside)) ?_ rfl (.refl _) (fun _ => rfl) simple⟩
    rw [follow_mk _ _ (by simp [Shape.kind])]
    exact rowsBelow

section Parent

variable {inner : List Mapping} (chain : FlatChain e p below f inner) (own : p.label ∉ p.labelsBelow)
  (reads : q.source = some (.select p)) (labels : q.labelsBelow = p.label :: p.labelsBelow)
  (simple : q.Simple (Column.inScope p.label below.names))

include chain

theorem FlatChain.sameLabel : f.label = p.label := by
  obtain ⟨_, _, _, flat⟩ := chain.flat inner inner.length chain.noWildcard le_rfl fun _ _ => rfl
  exact flat.label

theorem FlatChain.flatten_parent {scope : Column → Bool} (simple : q.Simple scope) (reads : q.source = some (.select p)) :
    Pass.flatten (.select q) = (.select (Pass.flattenSelect { q with source := some (.select f) }).1,
      inner ++ (Pass.flattenSelect { q with source := some (.select f) }).2) := by
  rw [flatten_select simple reads, chain.flattened]

include own

theorem FlatChain.unmapped (same : c.label = p.label) : inner.findSome? (·.resolve? c) = none :=
  resolve_none fun m member other => own (by rw [← same, ← other]; exact chain.inside m member)

include reads labels simple

/-- The select below is taken in. -/
theorem FlatChain.merged (distinct : (p.columns.map (·.name)).Nodup) (mapped : ofSelect? f = some m)
    (star : q.projectsStar = true → f.projectsStar = true)
    (merges : Pass.flattenSelect { q with source := some (.select f) } =
      (Pass.merge { q with source := some (.select f) } f, [m])) :
    FlatChain e q (e.answer byName q below) (Pass.merge { q with source := some (.select f) } f) (inner ++ [m]) := by
  have ofInner : m.label = p.label := (ofSelect_label mapped).trans chain.sameLabel
  refine ⟨?_, ?_, ?_, fun mappings depth noWild enough agree => ?_⟩
  · rw [chain.flatten_parent simple reads, merges]
  · exact List.forall_mem_append.mpr ⟨chain.noWildcard, ofSelect_noWildcard mapped⟩
  · refine List.forall_mem_append.mpr ⟨fun m member => ?_, List.forall_mem_singleton.mpr ?_⟩
    · exact labels ▸ List.mem_cons_of_mem _ (chain.inside m member)
    · rw [labels, ofInner]
      exact List.mem_cons_self
  rw [List.length_append, List.length_singleton] at enough ⊢
  -- Labels tell the mapping of `p` from those below: it alone resolves the columns of `p`, and no other column.
  have found (c : Column) (same : c.label = p.label) : mappings.findSome? (·.resolve? c) = m.resolve? c := by
    rw [agree c (by rw [labels, same]; exact List.mem_cons_self), List.findSome?_append, chain.unmapped own same]
    simp
  have agreeBelow (c : Column) (lower : c.label ∈ p.labelsBelow) :
      mappings.findSome? (·.resolve? c) = inner.findSome? (·.resolve? c) := by
    have other : [m].findSome? (·.resolve? c) = none :=
      resolve_none (List.forall_mem_singleton.mpr fun same => own (by rw [← ofInner, same]; exact lower))
    rw [agree c (labels ▸ List.mem_cons_of_mem _ lower), List.findSome?_append, other, Option.or_none]
  obtain ⟨base, owner, source, flat⟩ := chain.flat mappings depth noWild (by omega) agreeBelow
  have wild (exposes : q.isWildcard = true) : f.isWildcard = true := by
    refine flat.simple.columns.resolve_right fun ⟨named, _⟩ => ?_
    rw [star (projectsStar_wildcard exposes)] at named
    cases named
  exact ⟨base, owner, source, flat.merged mapped (flat.columns ▸ distinct) (by omega) found wild reads simple⟩

/-- The select below stays, and has its rows as it is by then. -/
theorem FlatChain.stays (stays : Pass.flattenSelect { q with source := some (.select f) } =
      ({ q with source := some (.select f) }, [])) :
    FlatChain e q (e.answer byName q below) { q with source := some (.select f) } inner := by
  have orderings := orderings_select simple reads
  refine ⟨?_, chain.noWildcard, fun m member => ?_, fun mappings depth noWild enough agree => ?_⟩
  · rw [chain.flatten_parent simple reads, stays, List.append_nil]
  · exact labels ▸ List.mem_cons_of_mem _ (chain.inside m member)
  obtain ⟨base, owner, source, flat⟩ := chain.flat mappings depth noWild enough fun c lower =>
    agree c (labels ▸ List.mem_cons_of_mem _ lower)
  have unmapped (c : Column) (same : c.label = p.label) : mappings.findSome? (·.resolve? c) = none :=
    (agree c (by rw [labels, same]; exact List.mem_cons_self)).trans (chain.unmapped own same)
  have rowsBelow := e.relation_follow noWild flat.reads flat.owns flat.rowsBelow flat.simple
  exact ⟨.select f, p.label, _, Flattened.stays (congrArg some flat.label) unmapped rowsBelow flat.names flat.rows
    (fun few => flat.sameRows (by omega)) simple⟩

theorem FlatChain.parent (distinct : (p.columns.map (·.name)).Nodup) :
    ∃ f' inner', FlatChain e q (e.answer byName q below) f' inner' := by
  have overFlat : ({ q with source := some (.select f) } : Select Node).source = some (.select f) := rfl
  rcases Pass.flattenSelect_over overFlat with ⟨m, mapped, star, merges⟩ | stays
  · exact ⟨_, _, chain.merged own reads labels simple distinct mapped star merges⟩
  · exact ⟨_, _, chain.stays own reads labels simple stays⟩

end Parent

theorem flatChain_exists {n : Node} (node : n = .select q) (rows : e.relation? n = some r) (distinct : n.labels.Nodup)
    (named : ∀ p ∈ n.queries, (p.columns.map (·.name)).Nodup) : ∃ f inner, FlatChain e q r f inner := by
  induction n using Node.inductNode generalizing q r with
  | step s ih =>
    cases node
    obtain ⟨base, label, below, reads, owns, rowsBelow, simple, rfl⟩ := e.relation_select.mp rows
    rcases relation_source e rowsBelow with ⟨name, l, type, rfl⟩ | ⟨p, rfl⟩
    · cases owns
      exact ⟨_, _, flatChain_table reads rowsBelow simple⟩
    · cases owns
      obtain ⟨_, _, _, _, _, _, simpleBelow, _⟩ := e.relation_select.mp rowsBelow
      have labels : q.labelsBelow = p.label :: p.labelsBelow := by
        rw [← labels_select simpleBelow]
        simp [Select.labelsBelow, reads]
      rw [labels_select simple, labels] at distinct
      rw [queries_select simple reads] at named
      have distinctBelow : (Node.select p).labels.Nodup := by
        rw [labels_select simpleBelow]
        exact (List.nodup_cons.mp distinct).2
      -- The induction is on the node, whose source is the next select of the chain.
      obtain ⟨f, inner, chain⟩ := ih (.select p) (Select.source_child reads) rfl rowsBelow distinctBelow
        fun q member => named q (List.mem_cons_of_mem _ member)
      have own := (List.nodup_cons.mp (List.nodup_cons.mp distinct).2).1
      have names := named p (by rw [Node.queries_mk]; exact List.mem_cons_of_mem _ List.mem_cons_self)
      exact chain.parent own reads labels simple names

/-- Merging the selects of a chain keeps the names and the rows of the query. It may change the order in which rows
come that the query leaves open where two selects order them, and with one at most it keeps the order as well. -/
theorem Pass.mergeSources_rows (rows : e.relation? (.select q) = some r) (distinct : (Node.select q).labels.Nodup)
    (named : ∀ p ∈ (Node.select q).queries, (p.columns.map (·.name)).Nodup) :
    ∃ r', e.relation? (mergeSources (.select q)) = some r' ∧ r'.names = r.names ∧ r'.rows.Perm r.rows ∧
      ((Node.select q).orderings ≤ 1 → r'.rows = r.rows) := by
  obtain ⟨f, inner, flattened, noWildcard, -, flat⟩ := flatChain_exists rfl rows distinct named
  have enough : inner.length ≤ maxDepth inner :=
    (Nat.le_succ _).trans (Nat.le_mul_of_pos_left _ (Nat.succ_pos _))
  obtain ⟨base, owner, source, flat⟩ := flat inner (maxDepth inner) noWildcard enough fun _ _ => rfl
  have merged : mergeSources (.select q) = follow inner (maxDepth inner) (.select f) := by
    unfold mergeSources Node.remap
    rw [flattened]
  refine ⟨_, ?_, flat.names, flat.rows, flat.sameRows⟩
  rw [merged]
  exact e.relation_follow noWildcard flat.reads flat.owns flat.rowsBelow flat.simple

end Levels

/-- A database that compares and reckons as literals are folded, and orders values by the whole numbers they are. -/
def Engine.folding (table : String → Relation) : Engine where
  table
  parameter _ := .null
  literal _ := .null
  call routine arguments := (routine.evaluate? arguments).getD .null
  compare op a b := (a.order? b).map (Pass.holds op)
  reckon op a b := (Pass.reckon? op a b).getD .null
  negate a := (Pass.evaluateUnary? .negate a).getD .null
  precedes a b := ((a.integer?.map Int64.toInt).getD 0 ≤ (b.integer?.map Int64.toInt).getD 0 : Bool)
  total _ _ := by simpa using Int.le_total _ _
  trans _ _ _ := by simpa using fun first second => Int.le_trans first second

/-- A select over a filter over an ordered select. -/
theorem Pass.mergeSources_rows_chain :
    let column (label name : String) : Node := .column ⟨label, name, .int32⟩
    let row (x y : Int32) : Record := fun name => .int32 (if name = "x" then x else y)
    let e := Engine.folding fun _ =>
      { names := fun name => name == "x" || name == "y", rows := [row 1 2, row 3 4, row 2 1] }
    let s2 : Select Node :=
      { label := "s2", source := some (.table "t" "t0" (.entity "t")), orderBy := [{ expr := column "t0" "y" }]
        columns := [⟨"a", column "t0" "x"⟩, ⟨"b", .binary .add (column "t0" "x") (column "t0" "y") .int32⟩] }
    let s1 : Select Node :=
      { label := "s1", source := some (.select s2)
        filter := some (.binary .gt (column "s2" "a") (.literal (.int32 1)) .boolean) }
    let q : Select Node := { label := "q", source := some (.select s1), columns := [⟨"v", column "s1" "b"⟩] }
    (Node.select q).labels.Nodup ∧ (∀ p ∈ (Node.select q).queries, (p.columns.map (·.name)).Nodup) ∧
      ∃ r r', e.relation? (.select q) = some r ∧ r.rows.map (· "v") = [.int32 3, .int32 7] ∧
        e.relation? (mergeSources (.select q)) = some r' ∧ r'.rows = r.rows := by
  intro column row e s2 s1 q
  have distinct : (Node.select q).labels.Nodup := by decide +kernel
  have named : ∀ p ∈ (Node.select q).queries, (p.columns.map (·.name)).Nodup := by decide +kernel
  have values : (e.relation? (.select q)).map (fun r => r.rows.map (· "v")) = some [.int32 3, .int32 7] := by
    decide +kernel
  obtain ⟨r, rows, values⟩ := Option.map_eq_some_iff.mp values
  obtain ⟨r', merged, -, -, same⟩ := mergeSources_rows rows distinct named
  exact ⟨distinct, named, r, r', rows, values, merged, same (by decide +kernel)⟩

end QueryTree
