import QueryTree.Proofs.Pass.Layers

/-! What is left of a select whose unused columns are removed.

Of every select there remain the columns that the result refers to, in their order, and one at least, and a select
without groups keeps its one row of all rows as long as a column that aggregates is among those. Whether a column
aggregates plays no part in what is removed: a select of which only other columns are referred to, or of which
nothing is referred to and the first column does not aggregate, comes to have a row for every row it reads.
-/

set_option autoImplicit false

namespace QueryTree

namespace Select

/-- The names of the columns, and which of them aggregate. -/
def profile (q : Select Node) : List (String × Bool) := q.columns.map fun b => (b.name, b.expr.aggregates)

/-- One row of all rows: there are no groups, and a column aggregates. -/
def isTotal (q : Select Node) : Bool := q.groupBy.isEmpty && q.columns.any (·.expr.aggregates)

theorem isTotal_iff {q : Select Node} : q.isTotal = true ↔ q.groupBy.isEmpty = true ∧ ∃ e ∈ q.profile, e.2 = true := by
  rw [isTotal, Bool.and_eq_true, List.any_eq_true]
  refine and_congr_right fun _ => ⟨fun ⟨b, column, aggregates⟩ => ⟨_, List.mem_map_of_mem column, aggregates⟩, ?_⟩
  rintro ⟨e, mem, aggregates⟩
  obtain ⟨b, column, rfl⟩ := List.mem_map.mp mem
  exact ⟨b, column, aggregates⟩

end Select

namespace Node

/-- The references to columns in a tree, as often as they stand there. -/
def mentions (n : Node) : List Column := n.subtrees.filterMap column?

theorem mentions_mk (s : Shape Node) :
    (Node.mk s).mentions = (column? (.mk s)).toList ++ s.children.flatMap mentions := by
  unfold mentions
  rw [subtrees_mk, List.filterMap_cons, List.filterMap_flatMap]
  cases column? (.mk s) <;> rfl

theorem aggregates_mk (s : Shape Node) : (Node.mk s).aggregates =
    match s with
    | .aggregate .. | .groupAggregate .. => true
    | .select _ | .subquery .. => false
    | s => s.children.any aggregates := by
  have rest (s : Shape Node) : (s.map aggregates).children.any id = s.children.any aggregates := by
    rw [Shape.children_map, List.any_map]
    rfl
  refine (fold_mk _ s).trans ?_
  cases s <;> first | rfl | exact rest _

/-- One of the references to a column is listed for all. -/
theorem uses_columns {n : Node} {label name : String} :
    Pass.uses n.columns label name = true ↔ ∃ c ∈ n.mentions, c.label = label ∧ c.name = name := by
  -- The list is grown from the references one by one; `seen` is what was listed before.
  have listed (cs : List Column) : ∀ seen : List Column,
      Pass.uses (cs.foldl (fun seen c => if seen.any c.sameAs then seen else seen ++ [c]) seen) label name = true ↔
        ∃ c ∈ seen ++ cs, c.label = label ∧ c.name = name := by
    induction cs with
    | nil => intro seen; simp [Pass.uses]
    | cons c cs ih =>
      intro seen
      rw [List.foldl_cons, ih]
      split
      next known =>
        obtain ⟨d, mem, same⟩ := List.any_eq_true.mp known
        obtain ⟨label', name'⟩ : c.label = d.label ∧ c.name = d.name := by simpa [Column.sameAs] using same
        refine ⟨fun ⟨e, mem, named⟩ => ⟨e, ?_, named⟩, fun ⟨e, mem', named⟩ => ?_⟩
        · rcases List.mem_append.mp mem with mem | mem <;> simp [mem]
        · rcases List.mem_append.mp mem' with mem' | mem'
          · exact ⟨e, List.mem_append_left _ mem', named⟩
          · rcases List.mem_cons.mp mem' with rfl | mem'
            · exact ⟨d, List.mem_append_left _ mem, label' ▸ named.1, name' ▸ named.2⟩
            · exact ⟨e, List.mem_append_right _ mem', named⟩
      next => simp
  exact listed n.mentions []

end Node

/-- What is left of a select: its columns, some removed, of which `used` says which are referred to. -/
structure Select.Kept (used : List Column) (q p : Select Node) : Prop where
  label : p.label = q.label
  distinct : p.distinct = q.distinct
  groupBy : p.groupBy.isEmpty = q.groupBy.isEmpty
  fewer : p.profile.Sublist q.profile
  whole : q.distinct = true → p.profile = q.profile
  referred : ∀ e ∈ q.profile, Pass.uses used q.label e.1 = true → e ∈ p.profile
  some : q.profile ≠ [] → p.profile ≠ []

namespace Select.Kept

variable {used : List Column} {a b c : Select Node}

theorem ofProfile (label : b.label = a.label) (distinct : b.distinct = a.distinct)
    (groupBy : b.groupBy.isEmpty = a.groupBy.isEmpty) (profile : b.profile = a.profile) : Kept used a b :=
  ⟨label, distinct, groupBy, profile ▸ List.Sublist.refl _, fun _ => profile, fun _ mem _ => profile ▸ mem,
    profile ▸ id⟩

theorem refl (q : Select Node) : Kept used q q := ofProfile rfl rfl rfl rfl

theorem trans (first : Kept used a b) (second : Kept used b c) : Kept used a c where
  label := second.label.trans first.label
  distinct := second.distinct.trans first.distinct
  groupBy := second.groupBy.trans first.groupBy
  fewer := second.fewer.trans first.fewer
  whole := fun distinct => (second.whole (first.distinct.trans distinct)).trans (first.whole distinct)
  referred := fun e mem uses => second.referred e (first.referred e mem uses) (by rw [first.label]; exact uses)
  some := second.some ∘ first.some

theorem mono {fewer : List Column} (kept : Kept used a b)
    (sub : ∀ label name, Pass.uses fewer label name = true → Pass.uses used label name = true) : Kept fewer a b :=
  { kept with referred := fun e mem uses => kept.referred e mem (sub _ _ uses) }

theorem isTotal (kept : Kept used a b) (total : a.isTotal = true)
    (stays : a.distinct = true ∨ (∀ e ∈ a.profile, e.2 = true) ∨
      ∃ e ∈ a.profile, e.2 = true ∧ Pass.uses used a.label e.1 = true) : b.isTotal = true := by
  obtain ⟨ungrouped, e, mem, aggregates⟩ := Select.isTotal_iff.mp total
  refine Select.isTotal_iff.mpr ⟨kept.groupBy.trans ungrouped, ?_⟩
  rcases stays with distinct | all | ⟨e, mem, aggregates, uses⟩
  · exact ⟨e, kept.whole distinct ▸ mem, aggregates⟩
  · obtain ⟨e', mem'⟩ := List.exists_mem_of_ne_nil _ (kept.some (List.ne_nil_of_mem mem))
    exact ⟨e', mem', all e' (kept.fewer.subset mem')⟩
  · exact ⟨e, kept.referred e mem uses, aggregates⟩

theorem isTotal_of (kept : Kept used a b) (total : b.isTotal = true) : a.isTotal = true := by
  obtain ⟨ungrouped, e, mem, aggregates⟩ := Select.isTotal_iff.mp total
  exact Select.isTotal_iff.mpr ⟨kept.groupBy.symm.trans ungrouped, e, kept.fewer.subset mem, aggregates⟩

end Select.Kept

/-- Every select of the second tree is what is left of one of the first, and it refers to nothing new. -/
structure Node.Trims (used : List Column) (n m : Node) : Prop where
  queries : ∀ p ∈ m.queries, ∃ q ∈ n.queries, Select.Kept used q p
  mentions : ∀ c ∈ m.mentions, c ∈ n.mentions
  aggregates : m.aggregates = n.aggregates

namespace Node.Trims

variable {used : List Column} {a b c : Node} {s t : Shape Node}

theorem refl (n : Node) : Trims used n n := ⟨fun p mem => ⟨p, mem, .refl p⟩, fun _ mem => mem, rfl⟩

theorem trans (first : Trims used a b) (second : Trims used b c) : Trims used a c where
  queries := fun p mem => by
    obtain ⟨q, mem, kept⟩ := second.queries p mem
    obtain ⟨r, mem, kept'⟩ := first.queries q mem
    exact ⟨r, mem, kept'.trans kept⟩
  mentions := fun c mem => first.mentions c (second.mentions c mem)
  aggregates := second.aggregates.trans first.aggregates

theorem mono {fewer : List Column} (trims : Trims used a b)
    (sub : ∀ label name, Pass.uses fewer label name = true → Pass.uses used label name = true) : Trims fewer a b :=
  { trims with
    queries := fun p mem => by
      obtain ⟨q, mem, kept⟩ := trims.queries p mem
      exact ⟨q, mem, kept.mono sub⟩ }

theorem layer (each : ∀ c ∈ t.children, ∃ b ∈ s.children, Trims used b c)
    (select : ∀ p, t = .select p → ∃ q, s = .select q ∧ Select.Kept used q p)
    (column : ∀ c, t = .column c → s = t) (aggregates : (Node.mk t).aggregates = (Node.mk s).aggregates) :
    Trims used (.mk s) (.mk t) where
  queries := fun p mem => by
    rw [queries_mk, List.mem_append, List.mem_flatMap] at mem
    rcases mem with here | ⟨c, child, below⟩
    -- The select is the layer itself or stands in a child, which was trimmed from a child before.
    · obtain rfl : t = .select p := by
        cases t <;> first | cases Option.mem_toList.mp here; rfl | cases Option.mem_toList.mp here
      obtain ⟨q, rfl, kept⟩ := select p rfl
      exact ⟨q, by rw [queries_mk]; exact List.mem_cons_self, kept⟩
    · obtain ⟨b, child, trims⟩ := each c child
      obtain ⟨q, inside, kept⟩ := trims.queries p below
      exact ⟨q, by rw [queries_mk]; exact List.mem_append_right _ (List.mem_flatMap.mpr ⟨b, child, inside⟩), kept⟩
  mentions := fun d mem => by
    rw [mentions_mk, List.mem_append, List.mem_flatMap] at mem
    rcases mem with here | ⟨c, child, below⟩
    · obtain rfl : t = .column d := by
        cases t <;> first | cases Option.mem_toList.mp here; rfl | cases Option.mem_toList.mp here
      obtain rfl := column d rfl
      rw [mentions_mk]
      exact List.mem_append_left _ here
    · obtain ⟨b, child, trims⟩ := each c child
      rw [mentions_mk]
      exact List.mem_append_right _ (List.mem_flatMap.mpr ⟨b, child, trims.mentions d below⟩)
  aggregates := aggregates

theorem select {q p : Select Node} (kept : Select.Kept used q p)
    (each : ∀ c ∈ p.children, ∃ b ∈ q.children, Trims used b c) : Trims used (.select q) (.select p) :=
  layer each (fun _ same => ⟨q, rfl, Shape.select.inj same ▸ kept⟩) (fun _ same => by cases same)
    ((aggregates_mk _).trans (aggregates_mk (.select q)).symm)

theorem map {f : Node → Node} (each : ∀ c ∈ s.children, Trims used c (f c)) : Trims used (.mk s) (.mk (s.map f)) := by
  have below : ∀ c ∈ (s.map f).children, ∃ b ∈ s.children, Trims used b c := by
    rw [Shape.children_map, List.forall_mem_map]
    exact fun c child => ⟨c, child, each c child⟩
  have results : (s.map f).map Node.aggregates = s.map Node.aggregates :=
    (Shape.map_map _ _ s).trans (Shape.map_congr fun c child => (each c child).aggregates)
  have own : (Node.mk (s.map f)).aggregates = (Node.mk s).aggregates :=
    (fold_mk _ _).trans ((congrArg _ results).trans (fold_mk _ _).symm)
  refine layer below (fun p same => ?_) (fun c same => ?_) own
  · cases s with
    | select q =>
      cases same
      have profile : (q.map f).profile = q.profile := by
        simp only [Select.profile, Select.map, List.map_map]
        exact List.map_congr_left fun b column =>
          congrArg (Prod.mk b.name) (each b.expr (Select.column_child column)).aggregates
      exact ⟨q, rfl, .ofProfile rfl rfl (by simp [Select.map]) profile⟩
    | _ => cases same
  · cases s with
    | column d => rfl
    | _ => cases same

theorem source {q : Select Node} {source : Option Node} (each : ∀ s ∈ source, ∃ b ∈ q.source, Trims used b s) :
    Trims used (.select q) (.select { q with source }) := by
  refine select (.ofProfile rfl rfl rfl rfl) fun c child => ?_
  rcases Select.mem_children.mp child with column | inside | clause
  · exact ⟨c, Select.mem_children.mpr (.inl column), refl c⟩
  · obtain ⟨b, reads, trims⟩ := each c inside
    exact ⟨b, Select.source_child reads, trims⟩
  · exact ⟨c, Select.clause_child clause, refl c⟩

theorem join {kind : JoinKind} {condition : Option Node} {left right left' right' : Node}
    (first : Trims used left left') (second : Trims used right right') :
    Trims used (.join kind left right condition) (.join kind left' right' condition) := by
  refine layer (fun c child => ?_) (fun _ same => by cases same) (fun _ same => by cases same) ?_
  · simp only [Shape.children, List.mem_cons, Option.mem_toList] at child
    rcases child with rfl | rfl | test
    · exact ⟨left, by simp [Shape.children], first⟩
    · exact ⟨right, by simp [Shape.children], second⟩
    · exact ⟨c, by simp [Shape.children, Option.mem_def.mp test], refl c⟩
  · rw [aggregates_mk, aggregates_mk]
    simp only [Shape.children, List.any_cons, first.aggregates, second.aggregates]

end Node.Trims

namespace Pass

open Node (Trims)

variable (used : List Column)

theorem pruneSource_trims (q : Select Node) : Trims used (.select q) (pruneSource used q) := by
  have sublist := keptColumns_sublist used q
  refine Trims.select ⟨rfl, rfl, rfl, sublist.map _, ?_, ?_, ?_⟩ ?_
  · intro distinct
    simp only [Select.profile, keptColumns, distinct, if_true]
  · intro e mem uses
    obtain ⟨b, column, rfl⟩ := List.mem_map.mp mem
    refine List.mem_map.mpr ⟨b, ?_, rfl⟩
    show b ∈ keptColumns used q
    -- Even where only one column is kept for the sake of the rows, nothing used is dropped.
    have listed : b ∈ q.columns.filter fun b => Pass.uses used q.label b.name := List.mem_filter.mpr ⟨column, uses⟩
    unfold keptColumns
    split
    · exact column
    · split
      next none => rw [none] at listed; cases listed
      next => exact listed
  · exact fun some none => some (List.map_eq_nil_iff.mpr (keptColumns_some used q (List.map_eq_nil_iff.mp none)))
  · intro c child
    refine ⟨c, ?_, Trims.refl c⟩
    rcases Select.mem_children.mp child with ⟨b, column, rfl⟩ | later
    · exact Select.column_child (sublist.subset column)
    · exact Select.mem_children.mpr (.inr later)

theorem mapSources_trims (n : Node) : Trims used n (n.mapSources (pruneSource used)) := by
  induction n using Node.inductNode with
  | step s ih =>
    cases s with
    | select q => exact pruneSource_trims used q
    | join kind left right condition =>
      exact Trims.join (ih left (by simp [Shape.children])) (ih right (by simp [Shape.children]))
    | _ => exact Trims.refl _

theorem pruneSources_trims (n : Node) : Trims used n (pruneSources used n) := by
  unfold pruneSources
  split
  · split
    · exact Trims.refl _
    · refine Trims.source fun s mem => ?_
      obtain ⟨b, reads, rfl⟩ := Option.map_eq_some_iff.mp mem
      exact ⟨b, reads, mapSources_trims used b⟩
  · exact Trims.refl _

/-- One removal. -/
theorem pruneUnused_trims (n : Node) : Trims n.columns n (pruneUnused n) := by
  have each (m : Node) : Trims n.columns m (m.mapUp (pruneSources n.columns)) := by
    induction m using Node.inductNode with
    | step s ih =>
      rw [Node.mapUp_mk]
      exact (Trims.map ih).trans (pruneSources_trims _ _)
  exact each n

theorem untilStable_trims (rounds : Nat) : ∀ n : Node,
    Trims (n.untilStable pruneUnused rounds).columns n (n.untilStable pruneUnused rounds) := by
  induction rounds with
  | zero => exact fun n => Trims.refl n
  | succ rounds ih =>
    intro n
    unfold Node.untilStable
    dsimp only
    split
    · exact Trims.refl n
    · -- A later round finds no new references, so what the end refers to is kept by this round too.
      have later := ih (pruneUnused n)
      refine ((pruneUnused_trims n).mono fun label name uses => ?_).trans later
      obtain ⟨c, mem, named⟩ := Node.uses_columns.mp uses
      exact Node.uses_columns.mpr ⟨c, (pruneUnused_trims n).mentions c (later.mentions c mem), named⟩

/-- Every select of the result is what is left of one of the tree by the references of the result. -/
theorem unusedColumns_trims (n : Node) : Trims (unusedColumns.transform n).columns n (unusedColumns.transform n) :=
  untilStable_trims _ n

/-- The selects of a label come to one row as before when they are distinct, when all their columns aggregate, or when
a column that does is still referred to; and no other select comes to have one row. -/
theorem unusedColumns_totals (n : Node) (label : String) :
    let r := unusedColumns.transform n
    ((∀ q ∈ n.queries, q.label = label → q.isTotal = true ∧ (q.distinct = true ∨ (∀ e ∈ q.profile, e.2 = true) ∨
        ∃ e ∈ q.profile, e.2 = true ∧ uses r.columns label e.1 = true)) →
      ∀ p ∈ r.queries, p.label = label → p.isTotal = true) ∧
    ((∀ q ∈ n.queries, q.label = label → q.isTotal = false) →
      ∀ p ∈ r.queries, p.label = label → p.isTotal = false) := by
  intro r
  refine ⟨fun given p mem named => ?_, fun given p mem named => ?_⟩
  · obtain ⟨q, mem, kept⟩ := (unusedColumns_trims n).queries p mem
    have same : q.label = label := kept.label.symm.trans named
    obtain ⟨total, stays⟩ := given q mem same
    exact kept.isTotal total (by rw [same]; exact stays)
  · obtain ⟨q, mem, kept⟩ := (unusedColumns_trims n).queries p mem
    have none := given q mem (kept.label.symm.trans named)
    cases total : p.isTotal with
    | false => rfl
    | true => exact absurd (kept.isTotal_of total) (by simp [none])

/-- A count beside a column that is referred to: the count is removed, and with it the one row. -/
theorem total_lost :
    let counted : Select Node :=
      { label := "s1", columns := [⟨"one", .constant (.int32 1) .int32⟩, ⟨"n", .aggregate .count none false .int32⟩]
        source := some (.table "T" "t0" .void) }
    let tree : Node :=
      .select { label := "s0", columns := [⟨"x", .column ⟨"s1", "one", .int32⟩⟩], source := some (.select counted) }
    let totals (n : Node) : List (String × Bool) := n.queries.map fun q => (q.label, q.isTotal)
    totals tree = [("s0", false), ("s1", true)] ∧
      totals (unusedColumns.transform tree) = [("s0", false), ("s1", false)] := by
  decide +kernel

end Pass

end QueryTree
