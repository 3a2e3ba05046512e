import Mathlib.Algebra.Order.BigOperators.Group.List
import Mathlib.Algebra.Order.Ring.Nat
import QueryTree.Proofs.Pass.Pruning
import QueryTree.Proofs.Pass.Rounds

/-! How the removal of unused columns comes to rest, and where columns are removed.

A removal that changes a tree takes a declaration away, so there are no more of them than declarations. What is left
differs from the tree only below selects that pass on less than all of their source: there a select loses columns, none
that the result refers to, none when it is distinct, and never its last. A wildcard is a column among others to this and
goes when no reference names it; what the select reads from is then no longer kept whole.
-/

set_option autoImplicit false

namespace QueryTree

open Pass (uses keptColumns pruneSource pruneSources pruneUnused declaredColumns unusedColumns)

/-! ### Trees with columns removed -/

/-- The second tree is the first with columns removed. In the place of a source of a select that names its columns
(`loose`) a select may have lost some, of which `used` refers to none; in other places it has all of them. -/
inductive Node.Pruned (used : List Column) : Bool → Node → Node → Prop where
  | select {loose : Bool} (q : Select (Node × Node)) (kept : List (Binding (Node × Node)))
      (fewer : kept.Sublist q.columns)
      (whole : loose = false ∨ q.distinct = true → kept = q.columns)
      (referred : ∀ name, uses used q.label name = true →
        kept.filter (·.name == name) = q.columns.filter (·.name == name))
      (some : kept = [] → q.columns = [])
      (columns : ∀ b ∈ q.columns, Pruned used false b.expr.1 b.expr.2)
      (clauses : ∀ c ∈ q.clauses, Pruned used false c.1 c.2)
      (source : ∀ s ∈ q.source, Pruned used (!{ q with columns := kept }.projectsStar) s.1 s.2) :
      Pruned used loose (.select (q.map Prod.fst)) (.select ({ q with columns := kept }.map Prod.snd))
  | join {loose : Bool} (kind : JoinKind) {left right left' right' : Node} (condition : Option (Node × Node))
      (first : Pruned used loose left left') (second : Pruned used loose right right')
      (test : ∀ c ∈ condition, Pruned used false c.1 c.2) :
      Pruned used loose (.join kind left right (condition.map Prod.fst)) (.join kind left' right' (condition.map Prod.snd))
  | other {loose : Bool} (s : Shape (Node × Node)) (notSelect : s.kind ≠ .select) (notJoin : s.kind ≠ .join)
      (each : ∀ p ∈ s.children, Pruned used false p.1 p.2) :
      Pruned used loose (.mk (s.map Prod.fst)) (.mk (s.map Prod.snd))

namespace Select

theorem projectsStar_more {α : Type} {q : Select α} {kept : List (Binding α)} (fewer : kept.Sublist q.columns)
    (some : kept = [] → q.columns = []) (star : { q with columns := kept }.projectsStar = true) :
    q.projectsStar = true := by
  rcases Bool.or_eq_true_iff.mp star with none | wild
  · exact Bool.or_eq_true_iff.mpr (.inl (List.isEmpty_iff.mpr (some (List.isEmpty_iff.mp none))))
  · obtain ⟨b, column, wildcard⟩ := List.any_eq_true.mp wild
    exact Bool.or_eq_true_iff.mpr (.inr (List.any_eq_true.mpr ⟨b, fewer.subset column, wildcard⟩))

theorem clauses_map {α β : Type} (q : Select α) (f : α → β) : (q.map f).clauses = q.clauses.map f := by
  simp [clauses, Select.map, OrderItem.map, Shape.toList_map, Function.comp_def]

@[simp] theorem clauses_columns {α : Type} (q : Select α) (columns : List (Binding α)) :
    ({ q with columns } : Select α).clauses = q.clauses := rfl

end Select

namespace Pass

variable {used : List Column} {q : Select Node}

theorem keptColumns_distinct (distinct : q.distinct = true) : keptColumns used q = q.columns := by
  rw [keptColumns, if_pos distinct]

theorem keptColumns_referred {name : String} (referred : uses used q.label name = true) :
    (keptColumns used q).filter (·.name == name) = q.columns.filter (·.name == name) := by
  have among : (q.columns.filter fun b => uses used q.label b.name).filter (·.name == name) =
      q.columns.filter (·.name == name) := by
    rw [List.filter_filter]
    refine List.filter_congr fun b _ => ?_
    cases same : b.name == name with
    | false => rfl
    | true => rw [beq_iff_eq.mp same, referred, Bool.and_self]
  unfold keptColumns
  split
  · rfl
  · split
    · rename_i none
      -- Where nothing is referred to there is no column of the name to begin with.
      rw [none] at among
      rw [← among]
      refine List.filter_eq_nil_iff.mpr fun b member => ?_
      exact List.filter_eq_nil_iff.mp among.symm b (List.mem_of_mem_take member)
    · exact among

end Pass

/-! ### Counting declarations -/

theorem sum_forall_eq {α : Type} {f g : α → Nat} {l : List α} (le : ∀ a ∈ l, f a ≤ g a)
    (same : (l.map f).sum = (l.map g).sum) : ∀ a ∈ l, f a = g a := by
  by_contra other
  push Not at other
  obtain ⟨a, member, ne⟩ := other
  have lt : f a < g a := lt_of_le_of_ne (le a member) ne
  have less := List.sum_lt_sum f g le ⟨a, member, lt⟩
  omega

namespace Pass

theorem declaredColumns_mk (s : Shape Node) : declaredColumns (.mk s) =
    ((Node.select? (.mk s)).toList.flatMap (·.columns)).length + (s.children.map declaredColumns).sum := by
  show ((Node.mk s).queries.flatMap (·.columns)).length = _
  rw [Node.queries_mk, List.flatMap_append, List.length_append, List.flatMap_assoc]
  exact congrArg _ List.length_flatMap

theorem declaredColumns_other {s : Shape Node} (notSelect : s.kind ≠ .select) :
    declaredColumns (.mk s) = (s.children.map declaredColumns).sum := by
  rw [declaredColumns_mk]
  cases s with
  | select q => exact absurd rfl notSelect
  | _ => exact Nat.zero_add _

theorem declaredColumns_select {α : Type} (q : Select α) (f : α → Node) : declaredColumns (.select (q.map f)) =
    q.columns.length + (q.columns.map fun b => declaredColumns (f b.expr)).sum +
      (q.source.toList.map fun c => declaredColumns (f c)).sum + (q.clauses.map fun c => declaredColumns (f c)).sum := by
  have parts : ((q.map f).children.map declaredColumns).sum =
      (q.columns.map fun b => declaredColumns (f b.expr)).sum + (q.source.toList.map fun c => declaredColumns (f c)).sum +
        (q.clauses.map fun c => declaredColumns (f c)).sum := by
    rw [Select.children_map]
    simp only [Select.children, Select.clauses, List.map_append, List.map_map, List.sum_append, Function.comp_def]
    omega
  have own : (Node.select? (.select (q.map f))).toList.flatMap (·.columns) = q.columns.map (·.map f) := by
    simp [Node.select?, Select.map]
  rw [declaredColumns_mk, own, List.length_map]
  exact (congrArg _ parts).trans (by omega)

end Pass

namespace Node.Pruned

variable {used used' : List Column} {loose : Bool} {n m : Node}

theorem refl (n : Node) : Pruned used loose n n := by
  induction n using inductNode generalizing loose with
  | step s ih =>
    -- Each node is paired with itself, for a layer is pruned by pairs of children.
    suffices whole : Pruned used loose (.mk ((s.map fun c => (c, c)).map Prod.fst))
        (.mk ((s.map fun c => (c, c)).map Prod.snd)) by
      simpa only [Shape.map_map, Shape.map_id] using whole
    cases s with
    | select q =>
      apply Pruned.select (q.map fun c => (c, c)) (q.map fun c => (c, c)).columns (.refl _)
      · exact fun _ => rfl
      · exact fun _ _ => rfl
      · exact id
      · simpa [Select.map, Binding.map] using fun b (column : b ∈ q.columns) => ih b.expr (Select.column_child column)
      · simpa [Select.clauses_map] using fun c clause => ih c (Select.clause_child clause)
      · simpa [Select.map] using fun c source => ih c (Select.source_child source)
    | join kind left right condition =>
      apply Pruned.join kind (condition.map fun c => (c, c))
      · exact ih left (by simp [Shape.children])
      · exact ih right (by simp [Shape.children])
      · simpa using fun c test => ih c (by simp [Shape.children, test])
    | _ =>
      apply Pruned.other
      · rw [Shape.kind_map]
        exact Kind.noConfusion
      · rw [Shape.kind_map]
        exact Kind.noConfusion
      · simpa using fun c child => ih c child

theorem weaken (pruned : Pruned used loose n m) : Pruned used true n m := by
  induction pruned with
  | select q kept fewer whole referred some columns clauses source =>
    exact .select q kept fewer (fun distinct => whole (.inr (by simpa using distinct))) referred some columns clauses source
  | join kind condition _ _ test first second => exact .join kind condition first second test
  | other s notSelect notJoin each => exact .other s notSelect notJoin each

theorem declared (pruned : Pruned used loose n m) :
    declaredColumns m ≤ declaredColumns n ∧ (declaredColumns m = declaredColumns n → m = n) := by
  induction pruned with
  | select q kept fewer whole referred some _ _ _ columns clauses source =>
    have columnsLe : (kept.map fun b => declaredColumns b.expr.2).sum ≤
        (q.columns.map fun b => declaredColumns b.expr.1).sum := by
      trans (q.columns.map fun b => declaredColumns b.expr.2).sum
      · exact (fewer.map _).sum_le_sum fun _ _ => Nat.zero_le _
      · exact List.sum_le_sum fun b column => (columns b column).1
    have clausesLe := List.sum_le_sum fun c clause => (clauses c clause).1
    have sourceLe := List.sum_le_sum fun s inside => (source s (Option.mem_toList.mp inside)).1
    have lengths := fewer.length_le
    rw [Pass.declaredColumns_select, Pass.declaredColumns_select]
    dsimp only [Select.clauses_columns]
    constructor
    · omega
    · intro same
      -- With as many declarations left, no summand can be less than it was.
      obtain rfl : kept = q.columns := fewer.eq_of_length (by omega)
      have ofColumns := sum_forall_eq (fun b column => (columns b column).1) (by omega)
      have ofClauses := sum_forall_eq (fun c clause => (clauses c clause).1) (by omega)
      have ofSource := sum_forall_eq (fun s inside => (source s (Option.mem_toList.mp inside)).1) (by omega)
      apply congrArg mk
      refine Shape.map_congr (s := .select q) fun c child => ?_
      rcases Select.mem_children.mp child with ⟨b, column, rfl⟩ | inside | clause
      · exact (columns b column).2 (ofColumns b column)
      · exact (source c inside).2 (ofSource c (Option.mem_toList.mpr inside))
      · exact (clauses c clause).2 (ofClauses c clause)
  | @join _ kind left right left' right' condition _ _ _ first second test =>
    have testLe := List.sum_le_sum fun c inside => (test c (Option.mem_toList.mp inside)).1
    have declares (l r : Node) (f : Node × Node → Node) : declaredColumns (.join kind l r (condition.map f)) =
        declaredColumns l + declaredColumns r + (condition.toList.map fun c => declaredColumns (f c)).sum := by
      rw [Pass.declaredColumns_other Kind.noConfusion]
      cases condition <;> simp [Shape.children, Nat.add_assoc]
    rw [declares, declares]
    constructor
    · have := first.1
      have := second.1
      omega
    · intro same
      have ofTest := sum_forall_eq (fun c inside => (test c (Option.mem_toList.mp inside)).1) (by omega)
      obtain rfl : left' = left := first.2 (by have := first.1; have := second.1; omega)
      obtain rfl : right' = right := second.2 (by have := second.1; omega)
      rw [Option.map_congr fun c inside => (test c inside).2 (ofTest c (Option.mem_toList.mpr inside))]
  | other s notSelect notJoin _ each =>
    have le : ∀ p ∈ s.children, declaredColumns p.2 ≤ declaredColumns p.1 := fun p child => (each p child).1
    rw [Pass.declaredColumns_other (by rwa [Shape.kind_map]), Pass.declaredColumns_other (by rwa [Shape.kind_map])]
    simp only [Shape.children_map, List.map_map, Function.comp_def]
    constructor
    · exact List.sum_le_sum le
    · intro same
      exact congrArg mk (Shape.map_congr fun p child => (each p child).2 (sum_forall_eq le same p child))

theorem trimSources (pruned : Pruned used loose n m) (source : loose = true)
    (asked : ∀ label name, uses used label name = true → uses used' label name = true) :
    Pruned used true n (m.mapSources (pruneSource used')) := by
  induction pruned with
  | @select loose q kept fewer whole referred some columns clauses below _ _ _ =>
    -- What stays of the columns is a part of the pairs that were left, and the pairs are the same but for what was removed.
    generalize left : ({ q with columns := kept } : Select (Node × Node)).map Prod.snd = p
    have ofPairs : p.columns = kept.map (·.map Prod.snd) := by rw [← left]; rfl
    obtain ⟨kept', fewer', same⟩ := List.sublist_map_iff.mp (ofPairs ▸ Pass.keptColumns_sublist used' p)
    have made : pruneSource used' p = .select (({ q with columns := kept' } : Select (Node × Node)).map Prod.snd) := by
      rw [pruneSource, same, ← left]
      rfl
    have sameLabel : p.label = q.label := by rw [← left]; rfl
    have sameDistinct : p.distinct = q.distinct := by rw [← left]; rfl
    have emptied (none : kept' = []) : kept = [] := by
      have none : p.columns = [] := Pass.keptColumns_some used' p (by rw [same, none]; rfl)
      exact List.map_eq_nil_iff.mp (ofPairs.symm.trans none)
    rw [Node.mapSources, made]
    apply Pruned.select q kept' (fewer'.trans fewer)
    · rintro (loose | distinct)
      · cases loose
      · have all : keptColumns used' p = p.columns := Pass.keptColumns_distinct (sameDistinct.trans distinct)
        rw [← whole (.inr distinct)]
        apply fewer'.eq_of_length
        simpa [same, ofPairs] using congrArg List.length all
    · intro name uses
      have all := Pass.keptColumns_referred (q := p) (asked _ _ (sameLabel ▸ uses))
      rw [← referred name uses]
      apply (fewer'.filter _).eq_of_length
      simpa [same, ofPairs, List.filter_map, Binding.map, Function.comp_def] using congrArg List.length all
    · exact fun none => some (emptied none)
    · exact columns
    · exact clauses
    · -- A select that still exposes its source did so before, and then nothing was removed below.
      intro s reads
      cases star : ({ q with columns := kept' } : Select (Node × Node)).projectsStar with
      | false => exact (below s reads).weaken
      | true =>
        have before := Select.projectsStar_more (q := { q with columns := kept }) fewer' emptied star
        simpa [before] using below s reads
  | join kind condition _ _ test first second => exact .join kind condition (first source) (second source) test
  | other s notSelect notJoin each =>
    have still : (Node.mk (s.map Prod.snd)).mapSources (pruneSource used') = .mk (s.map Prod.snd) := by
      cases s with
      | select q => exact absurd rfl notSelect
      | join kind left right condition => exact absurd rfl notJoin
      | _ => rfl
    rw [still]
    exact .other s notSelect notJoin each

theorem again {q : Select (Node × Node)} {kept : List (Binding (Node × Node))} (f change : Node → Node)
    (fewer : kept.Sublist q.columns) (whole : loose = false ∨ q.distinct = true → kept = q.columns)
    (referred : ∀ name, uses used q.label name = true → kept.filter (·.name == name) = q.columns.filter (·.name == name))
    (some : kept = [] → q.columns = []) (columns : ∀ b ∈ q.columns, Pruned used false b.expr.1 (f b.expr.2))
    (clauses : ∀ c ∈ q.clauses, Pruned used false c.1 (f c.2))
    (source : ∀ s ∈ q.source, Pruned used (!{ q with columns := kept }.projectsStar) s.1 (change s.2)) :
    Pruned used loose (.select (q.map Prod.fst))
      (.select { ({ q with columns := kept }.map Prod.snd).map f with source := (q.source.map Prod.snd).map change }) := by
  -- The function changes no name, so whether all columns are projected stays the same.
  have names : (({ q with columns := kept } : Select (Node × Node)).map fun c => (c.1, f c.2)).projectsStar =
      ({ q with columns := kept } : Select (Node × Node)).projectsStar :=
    Select.projectsStar_names (Select.names_map _ _)
  have made := @Pruned.select used loose
    { q.map (fun c => (c.1, f c.2)) with source := q.source.map fun s => (s.1, change s.2) }
    (kept.map (·.map fun c => (c.1, f c.2))) (fewer.map _) (fun holds => congrArg _ (whole holds)) ?_ ?_ ?_ ?_ ?_
  · simpa [Select.map, Binding.map, OrderItem.map, Function.comp_def] using made
  · intro name uses
    simpa [Select.map, List.filter_map, Binding.map, Function.comp_def] using congrArg _ (referred name uses)
  · simpa [Select.map] using some
  · exact List.forall_mem_map.mpr columns
  · show ∀ c ∈ (q.map fun c => (c.1, f c.2)).clauses, _
    rw [Select.clauses_map]
    exact List.forall_mem_map.mpr clauses
  · intro s inside
    obtain ⟨s, reads, rfl⟩ := Option.map_eq_some_iff.mp inside
    exact names ▸ source s reads

theorem remove (pruned : Pruned used loose n m)
    (asked : ∀ label name, uses used label name = true → uses used' label name = true) :
    Pruned used loose n (m.mapUp (pruneSources used')) := by
  generalize rule : Node.mapUp (pruneSources used') = f at *
  have mk (s : Shape Node) : f (.mk s) = pruneSources used' (.mk (s.map f)) := by rw [← rule, mapUp_mk]
  -- What `used` refers to has stayed so far, and `used'` refers to all of that, so nothing goes that has to stay.
  induction pruned with
  | select q kept fewer whole referred some _ _ _ columns clauses source =>
    generalize ofPairs : ({ q with columns := kept } : Select (Node × Node)).map Prod.snd = p
    have sameStar : (p.map f).projectsStar = ({ q with columns := kept } : Select (Node × Node)).projectsStar := by
      rw [← ofPairs]
      exact Select.projectsStar_names ((Select.names_map _ _).trans (Select.names_map _ _))
    have parts (change : Node → Node) := again f change fewer whole referred some columns clauses
    rw [mk]
    show Pruned used _ _ (pruneSources used' (.select (p.map f)))
    rw [pruneSources, sameStar]
    -- A select that passes everything on leaves its sources as they are.
    cases star : ({ q with columns := kept } : Select (Node × Node)).projectsStar with
    | true =>
      rw [← ofPairs]
      exact parts f source
    | false =>
      have trimmed := parts (fun m => (f m).mapSources (pruneSource used')) fun s reads => by
        have below := source s reads
        rw [star] at below ⊢
        exact below.trimSources rfl asked
      rw [← ofPairs]
      simpa [Select.map, Function.comp_def] using trimmed
  | join kind condition _ _ _ first second test =>
    rw [mk]
    simpa [Shape.map, pruneSources, Function.comp_def] using
      Pruned.join kind (condition.map fun c => (c.1, f c.2)) first second fun _ inside => by
        obtain ⟨c, member, rfl⟩ := Option.map_eq_some_iff.mp inside
        exact test c member
  | other s notSelect notJoin _ each =>
    have made : pruneSources used' (.mk ((s.map fun c => (c.1, f c.2)).map Prod.snd)) =
        .mk ((s.map fun c => (c.1, f c.2)).map Prod.snd) := by
      cases s with
      | select q => exact absurd rfl notSelect
      | _ => rfl
    have again : Pruned used ‹_› (.mk ((s.map fun c => (c.1, f c.2)).map Prod.fst))
        (.mk ((s.map fun c => (c.1, f c.2)).map Prod.snd)) := by
      apply Pruned.other _ (by rwa [Shape.kind_map]) (by rwa [Shape.kind_map])
      rw [Shape.children_map]
      exact List.forall_mem_map.mpr each
    rw [← made] at again
    simpa only [mk, Shape.map_map] using again

end Node.Pruned

/-! ### Coming to rest -/

/-- A step that makes all it changes smaller changes nothing after as many times as its argument is large. -/
theorem iterate_rests {α : Type} {step : α → α} {size : α → Nat}
    (shrinks : ∀ a, step a = a ∨ size (step a) < size a) (a : α) :
    ∃ k ≤ size a, step (step^[k] a) = step^[k] a := by
  induction many : size a using Nat.strong_induction_on generalizing a with
  | _ many ih =>
    rcases shrinks a with still | less
    · exact ⟨0, Nat.zero_le _, still⟩
    · obtain ⟨k, within, rests⟩ := ih _ (many ▸ less) (step a) rfl
      use k + 1
      constructor
      · omega
      · rwa [Function.iterate_succ_apply]

namespace Pass

open Node (Pruned)

/-- A removal leaves the tree as it is or takes a declaration away. -/
theorem pruneUnused_shrinks (n : Node) : pruneUnused n = n ∨ declaredColumns (pruneUnused n) < declaredColumns n := by
  have pruned : Pruned n.columns false n (pruneUnused n) := (Pruned.refl n).remove fun _ _ uses => uses
  obtain ⟨le, same⟩ := pruned.declared
  rcases le.eq_or_lt with eq | lt
  · exact .inl (same eq)
  · exact .inr lt

/-- The removal after that of the last unused column is the one that changes nothing, and there are no more before it
than declarations. -/
theorem unusedColumns_rests (n : Node) : ∃ k ≤ declaredColumns n,
    unusedColumns.transform n = pruneUnused^[k] n ∧ pruneUnused^[k + 1] n = pruneUnused^[k] n := by
  obtain ⟨k, within, rests⟩ := iterate_rests pruneUnused_shrinks n
  refine ⟨k, within, ?_, ?_⟩
  · obtain ⟨more, total⟩ : ∃ more, declaredColumns n + 1 = more + k := Nat.exists_eq_add_of_le' (by omega)
    show n.untilStable pruneUnused (declaredColumns n + 1) = _
    rw [Node.untilStable_eq, total, Function.iterate_add_apply, Function.iterate_fixed rests]
  · rwa [Function.iterate_succ_apply']

theorem unusedColumns_idempotent (n : Node) :
    unusedColumns.transform (unusedColumns.transform n) = unusedColumns.transform n := by
  obtain ⟨k, -, reached, rests⟩ := unusedColumns_rests n
  rw [Function.iterate_succ_apply', ← reached] at rests
  exact (Node.untilStable_eq _ _ _).trans (Function.iterate_fixed rests _)

theorem iterate_pruned {used : List Column} (k : Nat) {n : Node}
    (asked : ∀ label name, uses used label name = true → uses (pruneUnused^[k] n).columns label name = true) :
    Pruned used false n (pruneUnused^[k] n) := by
  induction k with
  | zero => exact Pruned.refl n
  | succ k ih =>
    rw [Function.iterate_succ_apply'] at asked ⊢
    -- What the end refers to was referred to in every round before.
    have before (label name : String) (referred : uses used label name = true) :
        uses (pruneUnused^[k] n).columns label name = true := by
      obtain ⟨c, mentioned, named⟩ := Node.uses_columns.mp (asked label name referred)
      exact Node.uses_columns.mpr ⟨c, (pruneUnused_trims _).mentions c mentioned, named⟩
    exact (ih before).remove before

/-- The result is the tree with columns removed that it does not refer to, in sources of selects that do not pass on
everything. -/
theorem unusedColumns_pruned (n : Node) :
    Pruned (unusedColumns.transform n).columns false n (unusedColumns.transform n) := by
  obtain ⟨k, -, reached, -⟩ := unusedColumns_rests n
  rw [reached]
  exact iterate_pruned k fun _ _ uses => uses

/-- A wildcard that no reference names is removed. The select then passes on less than its source has, and columns of
the source that were read through the wildcard go as well. -/
theorem wildcard_source_pruned :
    let t (name : String) : Binding Node := ⟨name, .column ⟨"t0", name, .int32⟩⟩
    let inner : Select Node :=
      { label := "s2", columns := [t "a", t "b"], source := some (.table "T" "t0" .void) }
    let star : Select Node :=
      { label := "s1", columns := [⟨"a", .column ⟨"s2", "a", .int32⟩⟩, .everything], source := some (.select inner) }
    let tree : Node :=
      .select { label := "s0", source := some (.select star)
                columns := [⟨"x", .column ⟨"s1", "a", .int32⟩⟩, ⟨"y", .column ⟨"s1", "b", .int32⟩⟩] }
    let names (n : Node) : List (String × List String) := n.queries.map fun q => (q.label, q.columns.map (·.name))
    names tree = [("s0", ["x", "y"]), ("s1", ["a", "*"]), ("s2", ["a", "b"])] ∧
      names (unusedColumns.transform tree) = [("s0", ["x", "y"]), ("s1", ["a"]), ("s2", ["a"])] := by
  decide +kernel

end Pass

end QueryTree
