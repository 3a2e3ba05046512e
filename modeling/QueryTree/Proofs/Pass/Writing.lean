import QueryTree.Proofs.Amend.Writing
import QueryTree.Proofs.Command.Writing
import QueryTree.Proofs.Dialect.Scopes
import QueryTree.Proofs.Pass.Places

/-! What can be written before and after a pass.

A pass puts the meaning of a column in place of a reference, and lifts the form of an aggregate to the select that it is
over. Both may come from what is not written, so the labels that lead there are kept apart: as long as what is written
refers to none of them, every pass takes what can be written to what can be.
-/

set_option autoImplicit false

namespace QueryTree

open Node

variable {v : Draft} {r : Role} {n : Node} {q : Select Node}

/-- A select whose label may be referred to by what is written, or that is not written with all it holds. -/
theorem Node.writable_styles {hides : String → Bool} (known : v.lost = some hides) : (Node.select q).Writable v r ↔
    v.shows q.label = true ∧ q.Written v ∨
      r = .unwritten ∧ v.loses q.label = true ∧ ∀ c ∈ q.children, c.Writable v .unwritten := by
  by_cases unwritten : r = .unwritten
  · subst unwritten
    cases lost : v.loses q.label with
    | true =>
      have hidden : v.shows q.label = false := by
        refine Bool.eq_false_iff.mpr fun shown => ?_
        rw [Draft.loses_of_shows known shown] at lost
        cases lost
      rw [writable_lost lost, hidden]
      simp
    | false =>
      rw [writable_kept lost, Draft.shows_of_loses known lost]
      simp
  · rw [writable_select unwritten]
    simp [unwritten]

/-- What a select may declare that goes by the label. -/
def Draft.declares (v : Draft) (label : String) (e : Node) : Prop :=
  e.Writable v (if v.loses label then .unwritten else .expression)

section Placement

variable {hides : String → Bool} (known : v.lost = some hides) (strict : v.eitherForm = false)

include strict

theorem Node.Writable.child {s : Shape Node} {c : Node} (writable : (Node.mk s).Writable v r) (child : c ∈ s.children) :
    c.Writable v .unwritten := by
  obtain ⟨r', member⟩ := Shape.exists_role r child
  exact ((writable_mk.mp writable).2 (r', c) member).left strict

theorem groupForms_writable {label : String} {e : Node} (writable : n.Writable v .unwritten)
    (form : (label, e) ∈ n.groupForms) : v.declares label e := by
  induction n using Node.inductNode with
  | step s ih =>
    rw [Placement.groupForms_mk] at form
    split at form
    · rename_i owner inGroup asQuery type
      obtain ⟨inner, outer⟩ := writable_aggregate_aside.mp writable
      rcases List.mem_cons.mp form with same | form
      · cases same
        exact inner
      · rcases List.mem_append.mp form with form | form
        · exact ih inGroup (by simp [Shape.children]) (inner.left strict) form
        · exact ih asQuery (by simp [Shape.children]) outer form
    · cases form
    · cases form
    · obtain ⟨c, child, form⟩ := List.mem_flatMap.mp form
      exact ih c child (writable.child strict child) form

include known

theorem faithful_ofSelect {m : Mapping} (writable : (Node.select q).Writable v r)
    (mapped : Mapping.ofSelect? q = some m) : m.Faithful (Writable v) := by
  obtain ⟨sameLabel, declared, passed⟩ := Mapping.ofSelect_some mapped
  -- A label that is shown is not lost, so its select is written with all it holds.
  have written (shown : v.shows q.label = true) : q.Written v := by
    rcases (writable_styles known).mp writable with ⟨-, written⟩ | ⟨-, lost, -⟩
    · exact written
    · rw [Draft.loses_of_shows known shown] at lost
      cases lost
  refine .of (fun b member c same r reference => ?_) fun owner passes c same r reference => ?_
  · obtain ⟨column, named⟩ := declared b member
    rcases writable_column.mp reference with rfl | ⟨rfl, shown⟩
    · exact writable.child strict (Select.column_child column)
    · rw [same, sameLabel] at shown
      simpa [Binding.role, named] using (Select.written_iff.mp (written shown)).1 b column
  · rcases writable_column.mp reference with rfl | ⟨rfl, shown⟩
    · exact writable_column.mpr (.inl rfl)
    · rw [same, sameLabel] at shown
      obtain ⟨source, reads, labelled⟩ := Option.bind_eq_some_iff.mp (passed owner passes)
      have fits := (Select.written_iff.mp (written shown)).2.1 source reads
      refine writable_column.mpr (.inr ⟨rfl, ?_⟩)
      obtain ⟨s⟩ := source
      have fits := (writable_mk.mp fits).1
      cases s with
      | table | select =>
        cases labelled
        exact fits
      | _ => cases labelled

omit strict in
theorem Node.Writable.select {p : Select Node} (label : p.label = q.label) (writable : (Node.select q).Writable v r)
    (written : q.Written v → v.loses q.label = false → p.Written v)
    (lost : v.loses q.label = true → (∀ c ∈ q.children, c.Writable v .unwritten) →
      ∀ c ∈ p.children, c.Writable v .unwritten) : (Node.select p).Writable v r := by
  rw [writable_styles known] at writable ⊢
  rw [label]
  rcases writable with ⟨shown, parts⟩ | ⟨unwritten, hidden, parts⟩
  · exact .inl ⟨shown, written parts (Draft.loses_of_shows known shown)⟩
  · exact .inr ⟨unwritten, hidden, lost hidden parts⟩

omit strict known in
theorem keyParts_writable (writable : n.Writable v .expression) : Pass.keyParts n = [n] := by
  obtain ⟨s⟩ := n
  have fits := (writable_mk.mp writable).1
  rw [Pass.keyParts_mk]
  split <;> first | rfl | cases fits

theorem Node.writable_placement : Placement (Writable v) (fun r => r = .source ∨ r = .unwritten) v.declares where
  child writable child := ⟨.unwritten, writable.child strict child⟩
  layer {s} each r writable := by
    rw [writable_mk, Shape.fits_map, Shape.roles_map, List.forall_mem_map] at writable ⊢
    exact ⟨writable.1, fun x member => each x.2 (Shape.roles_child member) x.1 (writable.2 x member)⟩
  sides {r kind left right condition} sourced writable := by
    obtain ⟨fits, parts⟩ := writable_mk.mp writable
    simp only [Shape.roles, List.forall_mem_cons] at parts
    obtain ⟨onLeft, onRight, rest⟩ := parts
    have side : r.within .source = .source ∨ r.within .source = .unwritten := by
      rcases sourced with rfl | rfl <;> simp [Role.within]
    refine ⟨_, _, ⟨side, onLeft⟩, ⟨side, onRight⟩, fun left' right' first second => writable_mk.mpr ⟨?_, ?_⟩⟩
    · rcases sourced with rfl | rfl <;> exact fits
    · simpa only [Shape.roles, List.forall_mem_cons] using ⟨first, second, rest⟩
  reads {r q source} writable reads := by
    rcases (writable_styles known).mp writable with ⟨shown, written⟩ | ⟨unwritten, lost, parts⟩
    · have written := Select.written_iff.mp written
      refine ⟨.source, ⟨.inl rfl, written.2.1 source reads⟩, fun source' fits =>
        (writable_styles known).mpr (.inl ⟨shown, ?_⟩)⟩
      exact Select.written_iff.mpr ⟨written.1, by simpa using fits, written.2.2⟩
    · have parts := Select.forall_children.mp parts
      refine ⟨.unwritten, ⟨.inr rfl, parts.2.1 source reads⟩, fun source' fits =>
        (writable_styles known).mpr (.inr ⟨unwritten, lost, ?_⟩)⟩
      exact Select.forall_children.mpr ⟨parts.1, by simpa using fits, parts.2.2⟩
  column {c d} same r writable := by
    rw [writable_column] at writable ⊢
    rwa [same]
  fewer {q columns} sublist r writable := by
    refine Writable.select known (q := q) rfl writable (fun written _ => ?_) fun _ parts => ?_
    · rw [Select.written_iff] at written ⊢
      exact ⟨fun b member => written.1 b (sublist.subset member), written.2⟩
    · rw [Select.forall_children] at parts ⊢
      exact ⟨fun b member => parts.1 b (sublist.subset member), parts.2⟩
  measure {label inGroup asQuery type} name r writable := by
    have fits := (writable_mk.mp writable).1
    rw [writable_column]
    cases r with
    | unwritten => exact .inl rfl
    | expression => exact .inr ⟨rfl, fits⟩
    | source | query => cases fits
  declares {r q p source c e} writable _ _ inside form :=
    groupForms_writable strict (writable.child strict (Select.lifted_child inside)) form
  more {q extra} declared r writable := by
    refine Writable.select known (q := q) rfl writable (fun written kept => ?_) fun lost parts => ?_
    · rw [Select.written_iff] at written ⊢
      refine ⟨fun b member => ?_, written.2⟩
      rcases List.mem_append.mp member with own | added
      · exact written.1 b own
      -- The label is not lost, so what is declared under it has to be an expression.
      · have expression : b.expr.Writable v .expression := by simpa [Draft.declares, kept] using declared b added
        unfold Binding.role
        split
        · exact expression.left strict
        · exact expression
    · rw [Select.forall_children] at parts ⊢
      refine ⟨fun b member => ?_, parts.2⟩
      rcases List.mem_append.mp member with own | added
      · exact parts.1 b own
      · simpa [Draft.declares, lost] using declared b added
  merges {r q inner m} reads mapped mergeable writable := by
    have innerWritable : ∃ r', (Node.select inner).Writable v r' := ⟨_, writable.child strict (Select.source_child reads)⟩
    refine ⟨Writable.select known (q := q) rfl writable (fun written _ => ?_) fun _ parts => ?_,
      innerWritable.elim fun _ writable => faithful_ofSelect known strict writable mapped⟩
    · rw [Select.written_iff] at written ⊢
      obtain ⟨columns, sources, filter, groups, order, skip, take⟩ := written
      obtain ⟨-, inside⟩ := (writable_select (by simp)).mp (sources _ reads)
      obtain ⟨-, innerSource, innerFilter, -, innerOrder, -, -⟩ := Select.written_iff.mp inside
      refine ⟨columns, innerSource, ?_, groups, fun o member => ?_, skip, take⟩
      · exact Pass.mergeFilters_holds (fun first second => writable_binary.mpr ⟨first, second⟩) innerFilter filter
      · rcases Placement.mergeOrder_mem member with own | ⟨inherited, inherits⟩
        · exact order o own
        -- An order is inherited only between selects that are not distinct, which have the same words for it.
        · have plain : inner.distinct = false ∧ q.distinct = false := by
            simp only [Pass.canMerge, Pass.inheritsOrder, Bool.and_eq_true, Bool.not_eq_true'] at mergeable inherits
            exact ⟨mergeable.1.1.1.1.1.2, inherits.1.2⟩
          have order : v.order (Pass.merge q inner) = v.order inner := by
            simp [Draft.order, Pass.merge, plain.1, plain.2]
          exact order ▸ innerOrder o inherited
    · rw [Select.forall_children] at parts ⊢
      obtain ⟨columns, sources, filter, groups, order, skip, take⟩ := parts
      have inside (c : Node) (child : c ∈ inner.children) : c.Writable v .unwritten :=
        (sources _ reads).child strict (s := .select inner) child
      obtain ⟨-, innerSource, innerFilter, -, innerOrder, -, -⟩ := Select.forall_children.mp inside
      refine ⟨columns, innerSource, ?_, groups, fun o member => ?_, skip, take⟩
      · exact Pass.mergeFilters_holds (fun first second => (writable_parts v).binary.mpr ⟨first, second⟩)
          innerFilter filter
      · exact (Placement.mergeOrder_mem member).elim (order o) fun inherited => innerOrder o inherited.1
  skips {r outerIsStar s source m} sourced reads mapped passes writable := by
    refine ⟨?_, faithful_ofSelect known strict writable mapped⟩
    rcases sourced with rfl | rfl
    · exact (Select.written_iff.mp ((writable_select (by simp)).mp writable).2).2.1 source reads
    · exact writable.child strict (Select.source_child reads)
  keys q r writable := by
    refine Writable.select known (q := q) rfl writable (fun written _ => ?_) fun _ parts => ?_
    · rw [Select.written_iff] at written ⊢
      obtain ⟨columns, source, filter, groups, rest⟩ := written
      refine ⟨columns, source, filter, fun g member => ?_, rest⟩
      obtain ⟨key, inside, member⟩ := List.mem_flatMap.mp member
      rw [keyParts_writable (groups key inside), List.mem_singleton] at member
      exact member ▸ groups key inside
    · rw [Select.forall_children] at parts ⊢
      obtain ⟨columns, source, filter, groups, rest⟩ := parts
      refine ⟨columns, source, filter, fun g member => ?_, rest⟩
      obtain ⟨key, inside, member⟩ := List.mem_flatMap.mp member
      exact Pass.keyParts_part (writable_parts v) (groups key inside) g member

end Placement

/-! ### Rules -/

namespace Pass

theorem operand_writable {s : Shape Node} {c : Node} (uniform : s.isUniform = true)
    (writable : (Node.mk s).Writable v .expression) (child : c ∈ s.children) : c.Writable v .expression :=
  ((writable_uniform uniform).mp writable).2 c child

theorem calls_more {d : Dialect} {routine : Routine} {type type' : DataType} {few many : Nat}
    (associative : routine.isAssociative = true) (more : 0 < few → 0 < many) (calls : d.calls routine few type = true) :
    d.calls routine many type' = true := by
  cases routine <;> first | cases associative; done | skip
  all_goals
    obtain ⟨spelling, known, words⟩ := Option.any_eq_true .. |>.mp calls
    refine (Option.any_eq_true ..).mpr ⟨spelling, known, ?_⟩
    simp only [Bool.or_eq_true, decide_eq_true_eq] at words ⊢
    exact words.imp_right more

theorem spliced_adds {routine : Routine} {type : DataType} (associative : routine.isAssociative = true)
    (needed : v.dialect.calls routine 0 type ≠ true) (writable : n.Writable v .expression) :
    0 < (spliced routine n).length := by
  unfold spliced
  split
  · split
    · rename_i same
      subst same
      exact Nat.pos_of_ne_zero fun none => needed (calls_more associative (by simp [none]) (writable_mk.mp writable).1)
    · exact Nat.zero_lt_one
  · exact Nat.zero_lt_one

theorem flattenCall_writable (writable : n.Writable v .expression) : (flattenCall n).Writable v .expression := by
  unfold flattenCall
  split
  · rename_i routine arguments type
    split
    · rename_i associative
      obtain ⟨fits, each⟩ := (writable_uniform rfl).mp writable
      refine (writable_uniform rfl).mpr ⟨?_, fun c member => ?_⟩
      · by_cases needless : v.dialect.calls routine 0 type = true
        · exact calls_more associative (fun none => absurd none (Nat.lt_irrefl 0)) needless
        · refine calls_more associative (fun some => ?_) fits
          cases arguments with
          | nil => cases some
          | cons c rest =>
            rw [List.flatMap_cons, List.length_append]
            exact Nat.add_pos_left (spliced_adds associative needless (each c List.mem_cons_self)) _
      · obtain ⟨d, inside, member⟩ := List.mem_flatMap.mp member
        have inner : d.Writable v .expression := each d inside
        rcases spliced_mem member with rfl | ⟨_, _, rfl, listed⟩
        · exact inner
        · exact operand_writable rfl inner listed
    · exact writable
  · exact writable

theorem simplifyConnective_writable (writable : n.Writable v .expression) :
    (simplifyConnective n).Writable v .expression := by
  have absorbed (absorbing b : Bool) {other : Node} (whole : other.Writable v .expression) :
      (absorb absorbing b other).Writable v .expression := by
    unfold absorb
    split
    · exact writable_constant _ _
    · exact whole
  unfold simplifyConnective
  split
  · obtain ⟨left, right⟩ := writable_binary.mp writable
    split
    · exact absorbed _ _ right
    · exact absorbed _ _ left
    · exact writable
  · have once := operand_writable rfl writable List.mem_cons_self
    exact operand_writable rfl once List.mem_cons_self
  · split
    · exact writable_constant _ _
    · exact writable
  · exact writable

theorem expandComparison_writable (writable : n.Writable v .expression) :
    (expandComparison n).Writable v .expression := by
  unfold expandComparison
  split
  · rename_i op left right type
    obtain ⟨first, second⟩ := writable_binary.mp writable
    have same : compareEntities? op left right = none := by
      unfold compareEntities?
      split
      · cases (writable_mk.mp first).1
      · cases (writable_mk.mp first).1
      · cases (writable_mk.mp second).1
      · rfl
    rw [same]
    split <;> exact writable
  · exact writable

theorem foldLiteral_writable (writable : n.Writable v .expression) : (foldLiteral n).Writable v .expression := by
  unfold foldLiteral
  split
  · exact writable_constant _ _
  · exact writable

theorem unwrapCall_writable (writable : n.Writable v .expression) : (unwrapCall n).Writable v .expression := by
  unfold unwrapCall
  split
  · exact operand_writable rfl writable List.mem_cons_self
  · exact operand_writable rfl writable List.mem_cons_self
  · split
    · exact operand_writable rfl writable List.mem_cons_self
    · exact writable
  · exact writable

theorem simplifyConditional_writable (writable : n.Writable v .expression) :
    (simplifyConditional n).Writable v .expression := by
  unfold simplifyConditional
  split
  · rename_i branches otherwise type
    obtain ⟨-, each⟩ := (writable_uniform rfl).mp writable
    obtain ⟨each, last⟩ := Shape.forall_conditional.mp each
    obtain ⟨kept, left⟩ := pruneBranches_part otherwise branches
    have result : ∀ n ∈ (pruneBranches otherwise branches).2, n.Writable v .expression := by
      intro n member
      rcases left n member with member | ⟨b, inside, rfl⟩
      · exact last n member
      · exact (each b inside).2
    split
    · split
      · rename_i pruned
        exact result _ (by rw [pruned]; rfl)
      · exact writable_constant _ _
      · rename_i kept' last' _ _ pruned
        rw [pruned] at kept result
        exact (writable_uniform rfl).mpr
          ⟨rfl, Shape.forall_conditional.mpr ⟨fun b member => each b (kept b member), result⟩⟩
    · exact writable
  · exact writable

theorem expandMembership_writable (writable : n.Writable v .expression) :
    (expandMembership n).Writable v .expression := by
  have literal (operand : Node) (value : Value) : (literalLike operand value).Writable v .expression := by
    unfold literalLike Node.literal
    split <;> exact writable_constant _ _
  unfold expandMembership
  split
  · rename_i operand items listType type
    have sought : operand.Writable v .expression := operand_writable rfl writable List.mem_cons_self
    -- Composites cannot be written, so a scalar is sought.
    have single : components? operand = none := by
      unfold components?
      split
      · cases (writable_mk.mp sought).1
      · cases (writable_mk.mp sought).1
      · rfl
    unfold membership?
    rw [single]
    split
    · exact writable_constant _ _
    · rename_i some
      refine (writable_uniform rfl).mpr ⟨?_, ?_⟩
      · cases items with
        | nil => exact absurd rfl some
        | cons => simp [Shape.fits, Dialect.calls]
      · simp only [Shape.children, List.forall_mem_cons, List.forall_mem_map]
        exact ⟨sought, fun value _ => literal operand value⟩
  · exact writable

theorem rules_writable : ∀ rule ∈ rules, ∀ n, n.Writable v .expression → (rule n).Writable v .expression := by
  intro rule member n writable
  simp only [rules, List.mem_cons, List.not_mem_nil, or_false] at member
  rcases member with rfl | rfl | rfl | rfl | rfl | rfl | rfl
  · exact flattenCall_writable writable
  · exact simplifyConnective_writable writable
  · exact expandComparison_writable writable
  · exact foldLiteral_writable writable
  · exact unwrapCall_writable writable
  · exact simplifyConditional_writable writable
  · exact expandMembership_writable writable

/-- An operator is no source and no query, and the rules leave the others alone. -/
theorem rules_takePlace : ∀ rule ∈ rules, ∀ n, TakesPlace (fun r n => n.Writable v r) n (rule n) := by
  rintro rule member ⟨s⟩ r writable
  have still (labelled : s.isOrdinary = false) : (rule (.mk s)).Writable v r := by
    rwa [rules_still rule member s labelled]
  have fits := (writable_mk.mp writable).1
  cases r with
  | expression => exact rules_writable rule member _ writable
  | unwritten => exact rules_keep (writable_parts v) rule member _ writable
  | source | query => exact still (by cases s <;> first | rfl | cases fits)

end Pass

/-- Where what is written refers to nothing that is not, all that can be written can be when it is optimized. -/
theorem Pipeline.optimize_writable {hides : String → Bool} (known : v.lost = some hides) (strict : v.eitherForm = false)
    (writable : n.Writable v r) : (standard.optimize n).Writable v r :=
  (writable_placement known strict).optimize Pass.rules_takePlace n r writable

/-! ### Queries with a text -/

namespace Shipped

variable (d : Shipped)

/-- A node has a text of its own, once it is amended. -/
def formats (n : Node) : Bool := (d.dialect.format (d.dialect.amend n)).isOk

theorem writable_ofFormats {n : Node} (part : n.isPart = true) (formats : d.formats n = true) :
    n.Writable (d.draft true) .expression :=
  (d.amend_writable true n).mp (d.dialect.writable_ofFormat (d.amend_isPart part) formats)

theorem formats_ofWritable {n : Node} (writable : n.Writable (d.draft false) .expression) : d.formats n = true :=
  d.dialect.format_ofWritable ((d.amend_writable false n).mpr writable)

/-- Optimizing never takes the text from a query. Nothing is to be referred to that is not bound, for what a column means
takes the place of a reference, and may be from what is not written; and an aggregate over a group is to have a text in
either form, for it may be lifted into its group, and a column of the group may get out of it. -/
theorem optimize_formats {q : Select Node} (distinct : (Node.select q).labels.Nodup)
    (closed : (Node.select q).closed [] = true)
    (forms : ∀ m ∈ (Node.select q).subtrees, ∀ form ∈ m.shape.forms, form.isPart = true ∧ d.formats form = true)
    (formats : d.formats (.select q) = true) : d.formats (Pipeline.standard.optimize (.select q)) = true := by
  obtain ⟨hides, apart⟩ := (Node.select q).exists_apart (v := d.draft false) rfl distinct .expression
  have lenient : (Node.select q).Writable (d.draft true) .expression := d.writable_ofFormats rfl formats
  have each : ∀ m ∈ (Node.select q).subtrees, ∀ form ∈ m.shape.forms, form.Writable (d.draft true) .expression :=
    fun m member form inside => d.writable_ofFormats (forms m member form inside).1 (forms m member form inside).2
  have outside : Scope.Around { d.draft false with lost := some hides } .expression [] :=
    .written fun _ member => absurd member List.not_mem_nil
  have writable : (Node.select q).Writable { d.draft false with lost := some hides } .expression :=
    Node.writable_closed rfl rfl each apart outside closed lenient
  exact d.formats_ofWritable (Pipeline.optimize_writable rfl rfl writable).free

/-- The orders of each status are counted in the group that is read, and the second page of the counts is found by the
numbers of its rows. -/
theorem optimize_counted :
    let count : Node := .aggregate .count none false .int32
    let counts : Select Node := { label := "s9", columns := [⟨"n", count⟩], source := some (.table "orders" "t9" .void) }
    let status (label : String) : Node := .column ⟨label, "status", .text⟩
    let group : Select Node :=
      { label := "g", columns := [⟨"status", status "t0"⟩], source := some (.table "orders" "t0" .void)
        groupBy := [status "t0"] }
    let counted : Node := .groupAggregate "g" count (.subquery .scalar none (.select counts) .int32) .int32
    let q : Select Node :=
      { label := "s0", columns := [⟨"status", status "g"⟩, ⟨"n", counted⟩], source := some (.select group)
        orderBy := [⟨status "g", .ascending⟩], skip := some (.literal (.int32 10)), take := some (.literal (.int32 10)) }
    let d : Shipped := .sqlServer .rowNumber
    (Node.select q).labels.Nodup ∧ (Node.select q).closed [] = true ∧
      (∀ m ∈ (Node.select q).subtrees, ∀ form ∈ m.shape.forms, form.isPart = true ∧ d.formats form = true) ∧
      d.formats (.select q) = true ∧ d.formats (Pipeline.standard.optimize (.select q)) = true := by
  intro count counts status group counted q d
  have distinct : (Node.select q).labels.Nodup := by decide +kernel
  have closed : (Node.select q).closed [] = true := by decide +kernel
  have forms : ∀ m ∈ (Node.select q).subtrees, ∀ form ∈ m.shape.forms,
      form.isPart = true ∧ d.formats form = true := by decide +kernel
  have formats : d.formats (.select q) = true := by decide +kernel
  exact ⟨distinct, closed, forms, formats, d.optimize_formats distinct closed forms formats⟩

/-- A reference to what is not written, here to a column of an operand that nobody reads, may come to stand for what
cannot be written. -/
example :
    let inner : Select Node := { label := "x", columns := [⟨"k", .tuple []⟩], source := some (.table "U" "u" .void) }
    let k : Node := .column ⟨"x", "k", .unknown⟩
    let unread : Select Node := { label := "y", columns := [⟨"k", k⟩], source := some (.select inner) }
    let any : Select Node := { label := "z", columns := [⟨"k", .literal (.int32 1)⟩] }
    let q : Select Node :=
      { label := "s", columns := [⟨"k", k⟩]
        filter := some (.subquery .exists (some (.select unread)) (.select any) .boolean) }
    (Node.select q).labels.Nodup ∧ postgres.formats (.select q) = true ∧
      postgres.formats (Pipeline.standard.optimize (.select q)) = false := by decide +kernel

end Shipped

end QueryTree
