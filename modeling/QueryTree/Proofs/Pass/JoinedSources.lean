import QueryTree.Proofs.Node.Erasure
import QueryTree.Proofs.Pass.Places
import QueryTree.Proofs.Rows.Meaning

/-! What references to a joined select become when the select makes place for its source.

Its own columns are references, but what they refer to may be another select that was taken in, and of that one columns
may be anything, a literal included; or, in a lateral join, something to the left. Where every select inside refers to
what it reads from, a reference is followed from select to select and never leaves the source: where the join has no row
of the source, it is null before and after.
-/

set_option autoImplicit false

namespace QueryTree

/-! ### One select -/

namespace Pass

/-- A reference to a joined select that makes place for its source becomes a reference, to the column that declares it or
to the column of its name in the source. -/
theorem skipJoined_meaning {outerIsStar : Bool} {s : Select Node} {m : Mapping} {c : Column} {meaning : Node}
    (skipped : m ∈ (skipJoined outerIsStar s).2) (resolved : m.resolve? c = some meaning) :
    ∃ d, meaning = .column d ∧ c.label = s.label ∧
      (⟨c.name, .column d⟩ ∈ s.columns ∨ d = { c with label := d.label } ∧ s.source.bind Node.sourceLabel? = some d.label) := by
  unfold skipJoined at skipped
  split at skipped
  · rename_i source mapping reads mapped
    split at skipped
    · rename_i passes
      obtain rfl := List.mem_singleton.mp skipped
      obtain ⟨sameLabel, declared, passed⟩ := Mapping.ofSelect_some mapped
      obtain ⟨same, ⟨b, member, sameName, rfl⟩ | ⟨owner, passesOn, rfl⟩⟩ := Mapping.resolve_some resolved
      · obtain ⟨column, notWild⟩ := declared b member
        obtain ⟨d, reference⟩ := Placement.passesThrough_columns passes b column notWild
        refine ⟨d, reference, same.symm.trans sameLabel, .inl ?_⟩
        rw [← sameName, ← reference]
        exact column
      · exact ⟨_, rfl, same.symm.trans sameLabel, .inr ⟨rfl, passed owner passesOn⟩⟩
    · cases skipped
  · cases skipped

end Pass

/-! ### Sources that relay columns -/

namespace Node

/-- A source with the labels that it and its selects bind, where the named columns of every select are references to what
the select reads from. -/
inductive Relays : Node → List String → Prop where
  | table (name label : String) (type : DataType) : Relays (.table name label type) [label]
  | join {left right : Node} {first second : List String} (kind : JoinKind) (condition : Option Node)
      (onLeft : Relays left first) (onRight : Relays right second) :
      Relays (.join kind left right condition) (first ++ second)
  | select {q : Select Node} {source : Node} {bound : List String} (reads : q.source = some source)
      (below : Relays source bound)
      (references : ∀ b ∈ q.columns, b.isWildcard = false → ∃ c, b.expr = .column c ∧ c.label ∈ bound) :
      Relays (.select q) (q.label :: bound)

variable {n : Node} {bound : List String}

/-- A label of the tree is that of a table or of a select that relays columns itself, with labels that are bound. -/
def Bears (bound : List String) (label : String) (n : Node) : Prop :=
  ∃ m ∈ n.subtrees, m.sourceLabel? = some label ∧
    ∀ q, m = .select q → ∃ below, below ⊆ bound ∧ m.Relays (label :: below)

theorem Bears.up {s : Shape Node} {c : Node} {more : List String} {label : String} (bears : c.Bears bound label)
    (child : c ∈ s.children) (fewer : bound ⊆ more) : (Node.mk s).Bears more label := by
  obtain ⟨m, inside, named, relays⟩ := bears
  refine ⟨m, mem_subtrees_of_child child inside, named, fun q same => ?_⟩
  obtain ⟨below, among, relays⟩ := relays q same
  exact ⟨below, List.Subset.trans among fewer, relays⟩

theorem Relays.within (relays : n.Relays bound) : ∀ label ∈ bound, n.Bears bound label := by
  induction relays with
  | table name label type =>
    intro other member
    obtain rfl := List.mem_singleton.mp member
    exact ⟨_, self_mem_subtrees _, rfl, fun q same => absurd same (by simp)⟩
  | join kind condition _ _ first second =>
    intro label member
    rcases List.mem_append.mp member with inLeft | inRight
    · exact (first label inLeft).up (by simp [Shape.children]) (List.subset_append_left _ _)
    · exact (second label inRight).up (by simp [Shape.children]) (List.subset_append_right _ _)
  | @select q source bound reads below references ih =>
    intro label member
    rcases List.mem_cons.mp member with rfl | inside
    · exact ⟨_, self_mem_subtrees _, rfl, fun _ _ => ⟨bound, List.subset_cons_self _ _, .select reads below references⟩⟩
    · exact (ih label inside).up (Select.source_child reads) (List.subset_cons_self _ _)

theorem label_unique (distinct : n.labels.Nodup) {a b : Node} {label : String} (first : a ∈ n.subtrees)
    (second : b ∈ n.subtrees) (onFirst : a.sourceLabel? = some label) (onSecond : b.sourceLabel? = some label) : a = b := by
  unfold labels at distinct
  -- Only the order of the subtrees matters from here on, not that they are those of one node.
  generalize n.subtrees = parts at distinct first second
  induction parts with
  | nil => cases first
  | cons m rest ih =>
    have later {c : Node} (member : c ∈ rest) (bears : c.sourceLabel? = some label) : label ∈ rest.filterMap sourceLabel? :=
      List.mem_filterMap.mpr ⟨c, member, bears⟩
    rw [List.filterMap_cons] at distinct
    rcases List.mem_cons.mp first with rfl | inRest
    · rcases List.mem_cons.mp second with rfl | inRest'
      · rfl
      · rw [onFirst] at distinct
        exact absurd (later inRest' onSecond) (List.nodup_cons.mp distinct).1
    · rcases List.mem_cons.mp second with rfl | inRest'
      · rw [onSecond] at distinct
        exact absurd (later inRest onFirst) (List.nodup_cons.mp distinct).1
      · refine ih ?_ inRest inRest'
        split at distinct
        · exact distinct
        · exact (List.nodup_cons.mp distinct).2

end Node

/-! ### Where mappings come from -/

namespace Pass

/-- A select that has been flattened, what is inside it first. -/
def flattened (p : Select Node) : Select Node := (flattenSelect (p.map fun c => (flatten c).1)).1

theorem flatten_select (p : Select Node) : (flatten (.select p)).1 = .select (flattened p) := by
  rw [flatten_mk]
  rfl

theorem flattened_label (p : Select Node) : (flattened p).label = p.label := flattenSelect_label _

theorem flattened_columns (p : Select Node) :
    (flattened p).columns = p.columns.map (·.map fun c => (flatten c).1) := flattenSelect_columns _

theorem flatten_other {s : Shape Node} (notSelect : s.kind ≠ .select) :
    (flatten (.mk s)).1 = .mk (s.map fun c => (flatten c).1) := by
  rw [flatten_mk]
  cases s <;> first | rfl | exact absurd rfl notSelect

theorem flatten_selected {n : Node} {q : Select Node} (made : (flatten n).1 = .select q) :
    ∃ p, n = .select p ∧ q = flattened p := by
  obtain ⟨s⟩ := n
  by_cases select : s.kind = .select
  · cases s with
    | select p =>
      rw [flatten_select] at made
      cases made
      exact ⟨p, rfl, rfl⟩
    | _ => cases select
  · rw [flatten_other select] at made
    have kind : (s.map fun c => (flatten c).1).kind = .select := by
      rw [Node.mk.inj made]
      rfl
    rw [Shape.kind_map] at kind
    exact absurd kind select

theorem flatten_sourceSelects (n : Node) : (flatten n).1.sourceSelects = n.sourceSelects.map flattened := by
  induction n using Node.inductNode with
  | step s ih =>
    cases s with
    | select p =>
      rw [flatten_select]
      rfl
    | join kind left right condition =>
      rw [flatten_other Kind.noConfusion]
      show (flatten left).1.sourceSelects ++ (flatten right).1.sourceSelects =
        (left.sourceSelects ++ right.sourceSelects).map flattened
      rw [ih left (by simp [Shape.children]), ih right (by simp [Shape.children]), List.map_append]
    | _ =>
      rw [flatten_other Kind.noConfusion]
      rfl

theorem flattenSelect_mapping {q : Select Node} {m : Mapping} (member : m ∈ (flattenSelect q).2) :
    ∃ source ∈ q.source, ∃ s ∈ source.sourceSelects, Mapping.ofSelect? s = some m := by
  unfold flattenSelect at member
  split at member
  · rename_i inner reads
    split at member
    · rename_i mapping mapped
      split at member
      · obtain rfl := List.mem_singleton.mp member
        exact ⟨_, reads, inner, List.mem_singleton.mpr rfl, mapped⟩
      · cases member
    · cases member
  · rename_i kind left right condition reads
    obtain ⟨s, joined, member⟩ := List.mem_flatMap.mp member
    refine ⟨_, reads, s, joined, ?_⟩
    unfold skipJoined at member
    split at member
    · rename_i mapping _ mapped
      split at member
      · obtain rfl := List.mem_singleton.mp member
        exact mapped
      · cases member
    · cases member
  · cases member

theorem flatten_mapping {n : Node} {m : Mapping} (member : m ∈ (flatten n).2) :
    ∃ p, .select p ∈ n.subtrees ∧ Mapping.ofSelect? (flattened p) = some m := by
  induction n using Node.inductNode with
  | step s ih =>
    -- A mapping is made either further down or by the layer itself, out of a source that is flattened already.
    have below (member : m ∈ s.children.flatMap fun c => (flatten c).2) :
        ∃ p, .select p ∈ (Node.mk s).subtrees ∧ Mapping.ofSelect? (flattened p) = some m := by
      obtain ⟨c, child, member⟩ := List.mem_flatMap.mp member
      obtain ⟨p, inside, mapped⟩ := ih c child member
      exact ⟨p, Node.mem_subtrees_of_child child inside, mapped⟩
    rw [flatten_mk] at member
    split at member
    · rename_i q same
      rcases List.mem_append.mp member with inner | own
      · exact below inner
      · obtain ⟨source, reads, t, flat, mapped⟩ := flattenSelect_mapping own
        cases s with
        | select p =>
          cases same
          obtain ⟨before, inside, rfl⟩ := Option.map_eq_some_iff.mp reads
          rw [flatten_sourceSelects] at flat
          obtain ⟨p', joined, rfl⟩ := List.mem_map.mp flat
          refine ⟨p', ?_, mapped⟩
          exact Node.mem_subtrees_of_child (Select.source_child inside) (Node.sourceSelects_mem joined)
        | _ => cases same
    · exact below member

theorem flattenSelect_owner {q : Select Node} {owner : String}
    (owned : (flattenSelect q).1.source.bind Node.sourceLabel? = some owner) :
    ∃ source ∈ q.source, source.sourceLabel? = some owner ∨
      ∃ inner, source = .select inner ∧ inner.source.bind Node.sourceLabel? = some owner := by
  cases reads : q.source with
  | none =>
    rw [flattenSelect, reads] at owned
    dsimp only at owned
    rw [reads] at owned
    cases owned
  | some source =>
    refine ⟨source, rfl, ?_⟩
    obtain ⟨s⟩ := source
    -- A select that stays as it is has its source still.
    have still (same : flattenSelect q = (q, [])) : (Node.mk s).sourceLabel? = some owner := by
      rw [same, reads] at owned
      exact owned
    cases s with
    | select inner =>
      rcases flattenSelect_over reads with ⟨m, -, -, merged⟩ | same
      · rw [merged] at owned
        exact .inr ⟨inner, rfl, owned⟩
      · exact .inl (still same)
    | join kind left right condition =>
      rw [flattenSelect, reads] at owned
      cases owned
    | _ => exact .inl (still (by rw [flattenSelect, reads]))

end Pass

/-! ### References that stay inside -/

namespace Node

variable {n : Node} {bound : List String}

theorem Relays.owner (relays : n.Relays bound) :
    (∀ owner, (Pass.flatten n).1.sourceLabel? = some owner → owner ∈ bound) ∧
      ∀ q, n = .select q → ∀ owner, (Pass.flattened q).source.bind sourceLabel? = some owner → owner ∈ bound.tail := by
  induction relays with
  | table name label type =>
    constructor
    · rintro owner ⟨⟩
      exact List.mem_singleton.mpr rfl
    · intro q same
      cases same
  | join kind condition _ _ _ _ =>
    rw [Pass.flatten_other Kind.noConfusion]
    constructor
    · intro owner owned
      cases owned
    · intro q same
      cases same
  | @select q source bound reads _ _ ih =>
    constructor
    · intro owner owned
      rw [Pass.flatten_select] at owned
      obtain rfl := Option.some.inj owned
      rw [Pass.flattened_label]
      exact List.mem_cons_self
    · rintro q ⟨⟩ owner owned
      obtain ⟨_, flat, passed⟩ := Pass.flattenSelect_owner owned
      obtain ⟨before, inside, rfl⟩ := Option.map_eq_some_iff.mp flat
      obtain rfl : source = before := Option.some.inj (reads.symm.trans inside)
      -- The source may itself have been left out, and then its own source is what columns come from.
      rcases passed with here | ⟨inner, made, below⟩
      · exact ih.1 owner here
      · obtain ⟨p, rfl, rfl⟩ := Pass.flatten_selected made
        exact List.mem_of_mem_tail (ih.2 p rfl owner below)

end Node

namespace Mapping

variable {mappings : List Mapping}

/-- Every reference that it resolves becomes a reference to one of the labels. -/
def Leads (bound : List String) (m : Mapping) : Prop :=
  ∀ c meaning, m.resolve? c = some meaning → ∃ d, meaning = .column d ∧ d.label ∈ bound

theorem Leads.mono {bound more : List String} {m : Mapping} (leads : m.Leads bound) (fewer : bound ⊆ more) :
    m.Leads more := by
  intro c meaning resolved
  obtain ⟨d, same, inside⟩ := leads c meaning resolved
  exact ⟨d, same, fewer inside⟩

theorem Leads.ofRelays {p : Select Node} {bound : List String} {m : Mapping}
    (relays : (Node.select p).Relays (p.label :: bound)) (mapped : ofSelect? (Pass.flattened p) = some m) :
    m.Leads bound := by
  obtain ⟨-, declared, passed⟩ := ofSelect_some mapped
  intro c meaning resolved
  obtain ⟨-, ⟨b, member, -, rfl⟩ | ⟨owner, passesOn, rfl⟩⟩ := resolve_some resolved
  · obtain ⟨flat, notWild⟩ := declared b member
    rw [Pass.flattened_columns] at flat
    obtain ⟨before, column, rfl⟩ := List.mem_map.mp flat
    cases relays with
    | select _ _ references =>
      obtain ⟨d, reference, inside⟩ := references before column notWild
      refine ⟨d, ?_, inside⟩
      show (Pass.flatten before.expr).1 = .column d
      rw [reference]
      exact Pass.flatten_other Kind.noConfusion
  · exact ⟨_, rfl, relays.owner.2 p rfl owner (passed owner passesOn)⟩

/-- Where the mappings of the labels lead to the labels, a reference that is followed stays among them. -/
theorem follow_inside {bound : List String} (each : ∀ m ∈ mappings, m.label ∈ bound → m.Leads bound) (depth : Nat)
    {c : Column} (here : c.label ∈ bound) : ∃ d, follow mappings depth (.column c) = .column d ∧ d.label ∈ bound := by
  induction depth generalizing c with
  | zero => exact ⟨c, rfl, here⟩
  | succ depth ih =>
    cases found : mappings.findSome? (·.resolve? c) with
    | none => exact ⟨c, follow_kept found _, here⟩
    | some meaning =>
      obtain ⟨m, member, resolved⟩ := List.exists_of_findSome?_eq_some found
      obtain ⟨d, rfl, inside⟩ := each m member ((resolve_some resolved).1 ▸ here) c meaning resolved
      rw [follow_found found]
      exact ih inside

end Mapping

namespace Pass

variable {n : Node} {s : Select Node} {bound : List String} {c : Column}

/-- Mappings of what a source binds lead to what it binds. -/
theorem mapping_leads (distinct : n.labels.Nodup) (member : .select s ∈ n.subtrees)
    (relays : (Node.select s).Relays (s.label :: bound)) :
    ∀ m ∈ (flatten n).2, m.label ∈ s.label :: bound → m.Leads bound := by
  intro m mapping here
  -- A mapping is that of a select of the tree; its label tells that the select is `s` or bound inside.
  obtain ⟨p, inTree, mapped⟩ := flatten_mapping mapping
  have sameLabel : m.label = p.label := (Mapping.ofSelect_some mapped).1.trans (flattened_label p)
  rcases List.mem_cons.mp here with own | inside
  · obtain rfl : p = s := by
      have same : Node.select p = .select s :=
        Node.label_unique distinct inTree member rfl (congrArg some (own.symm.trans sameLabel))
      cases same
      rfl
    exact .ofRelays relays mapped
  · cases relays with
    | select reads below _ =>
      obtain ⟨m', inSource, bears, relays⟩ := below.within m.label inside
      have inTree' := Node.subtrees_trans member (Node.mem_subtrees_of_child (Select.source_child reads) inSource)
      obtain rfl : m' = .select p := Node.label_unique distinct inTree' inTree bears (by rw [sameLabel]; rfl)
      obtain ⟨below, fewer, relays⟩ := relays p rfl
      rw [sameLabel] at relays
      exact (Mapping.Leads.ofRelays relays mapped).mono fewer

/-- In a tree where labels are distinct, a reference to a select that relays columns, once the select makes place for its
source, is to what the source binds, through however many selects inside. -/
theorem remap_inside (distinct : n.labels.Nodup) (member : .select s ∈ n.subtrees)
    (relays : (Node.select s).Relays (s.label :: bound)) (reference : c.label = s.label)
    (resolved : (flatten n).2.findSome? (·.resolve? c) ≠ none) :
    ∃ d, (Node.column c).remap (flatten n).2 = .column d ∧ d.label ∈ bound := by
  have leads := mapping_leads distinct member relays
  obtain ⟨meaning, found⟩ := Option.ne_none_iff_exists'.mp resolved
  obtain ⟨m, mapping, first⟩ := List.exists_of_findSome?_eq_some found
  have own : m.label ∈ s.label :: bound :=
    List.mem_cons.mpr (.inl ((Mapping.resolve_some first).1.trans reference))
  obtain ⟨d, rfl, inside⟩ := leads m mapping own c meaning first
  obtain ⟨depth, steps⟩ : ∃ depth, Mapping.maxDepth (flatten n).2 = depth + 1 :=
    Nat.exists_eq_succ_of_ne_zero (by simp [Mapping.maxDepth])
  rw [Node.remap, steps, Mapping.follow_found found]
  apply Mapping.follow_inside _ depth inside
  intro m mapping here
  exact leads m mapping (List.mem_cons_of_mem _ here)

/-- So in a row that a join extends with nulls for all that the source binds, the reference is null. -/
theorem remap_null (distinct : n.labels.Nodup) (member : .select s ∈ n.subtrees)
    (relays : (Node.select s).Relays (s.label :: bound)) (reference : c.label = s.label)
    (resolved : (flatten n).2.findSome? (·.resolve? c) ≠ none) (e : Engine) {columns : Column → Value}
    (extended : ∀ d, d.label ∈ bound → columns d = .null) :
    e.value columns ((Node.column c).remap (flatten n).2) = .null := by
  obtain ⟨d, same, inside⟩ := remap_inside distinct member relays reference resolved
  rw [same]
  exact extended d inside

/-- Where a select inside declares a literal, the reference becomes the literal, whether or not there is a row. -/
theorem literal_in_join :
    let column (label name : String) : Node := .column ⟨label, name, .int32⟩
    let one : Node := .literal (.int32 1)
    let inner : Select Node :=
      { label := "s2", columns := [⟨"b", one⟩, ⟨"id", column "t1" "id"⟩], source := some (.table "U" "t1" .void) }
    let middle : Select Node :=
      { label := "s1", columns := [⟨"a", column "s2" "b"⟩, ⟨"id", column "s2" "id"⟩], source := some (.select inner) }
    let outer (v : Node) (right : Node) (id : Node) : Node :=
      .select { label := "s0", columns := [⟨"v", v⟩]
                source := some (.join .left (.table "T" "t0" .void) right (some (.equal (column "t0" "id") id))) }
    sources.transform (outer (column "s1" "a") (.select middle) (column "s1" "id")) =
      outer one (.table "U" "t1" .void) (column "t1" "id") := by
  decide +kernel

/-- Where a lateral source declares a column of its left, the reference becomes that column. -/
theorem left_in_lateral :
    let column (label name : String) : Node := .column ⟨label, name, .int32⟩
    let lateral : Select Node :=
      { label := "s1", columns := [⟨"a", column "t0" "x"⟩], source := some (.table "U" "t1" .void) }
    let outer (v : Node) (right : Node) : Node :=
      .select { label := "s0", columns := [⟨"v", v⟩]
                source := some (.join .outerApply (.table "T" "t0" .void) right none) }
    sources.transform (outer (column "s1" "a") (.select lateral)) = outer (column "t0" "x") (.table "U" "t1" .void) := by
  decide +kernel

end Pass

end QueryTree
