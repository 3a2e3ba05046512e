import QueryTree.Proofs.Pass.ResultColumns

/-! The columns of a result that a wildcard stands for.

A wildcard exposes what its source exposes, so below one a pass has to leave columns alone as it does at the root. Ten
passes do, wherever wildcards stand alone. The other two merge equal columns and add aggregates to a group without a
look at what reads from it.
-/

set_option autoImplicit false

namespace QueryTree

variable {names : List String} {n : Node}

namespace Node

/-- The names that a query exposes: a wildcard those of its source and then the ones beside it, a join those of both
sides, and a table one that stands for all of its own. -/
def resultColumns : Node → List String :=
  fold fun
    | .table name _ _ => [name ++ ".*"]
    | .join _ left right _ => left ++ right
    | .select q =>
      if q.projectsStar then q.source.getD [] ++ (q.columns.filter fun b => !b.isWildcard).map (·.name)
      else q.columns.map (·.name)
    | _ => []

/-- A query with a result of these columns, where every wildcard that the result is read through stands alone. -/
inductive Results : Node → List String → Prop where
  | table (name label : String) (type : DataType) : Results (.table name label type) [name ++ ".*"]
  | join {left right : Node} {first second : List String} (kind : JoinKind) (condition : Option Node)
      (onLeft : Results left first) (onRight : Results right second) :
      Results (.join kind left right condition) (first ++ second)
  | named {q : Select Node} (named : q.projectsStar = false) : Results (.select q) (q.columns.map (·.name))
  | star {q : Select Node} {source : Node} {names : List String} (wild : q.columns.all (·.isWildcard) = true)
      (reads : q.source = some source) (below : Results source names) : Results (.select q) names
  | nothing {q : Select Node} (wild : q.columns.all (·.isWildcard) = true) (none : q.source = none) :
      Results (.select q) []

end Node

namespace Select

variable {q : Select Node}

theorem all_wildcards_map {β : Type} {f : Node → β} (wild : q.columns.all (·.isWildcard) = true) :
    (q.map f).columns.all (·.isWildcard) = true := by
  simp only [Select.map, List.all_map]
  exact wild

theorem explicit_map {β : Type} (q : Select Node) (f : Node → β) :
    ((q.map f).columns.filter fun b => !b.isWildcard).map (·.name) =
      (q.columns.filter fun b => !b.isWildcard).map (·.name) := by
  simp only [Select.map, List.filter_map, List.map_map]
  rfl

theorem resultColumns_select (q : Select Node) : (Node.select q).resultColumns =
    if q.projectsStar then
      (q.source.map Node.resultColumns).getD [] ++ (q.columns.filter fun b => !b.isWildcard).map (·.name)
    else q.columns.map (·.name) := by
  refine (Node.fold_mk _ (.select q)).trans ?_
  have same := Select.names_map q Node.resultColumns
  show (if (q.map Node.resultColumns).projectsStar then (q.map Node.resultColumns).source.getD [] ++
    ((q.map Node.resultColumns).columns.filter fun b => !b.isWildcard).map (·.name)
    else (q.map Node.resultColumns).columns.map (·.name)) = _
  rw [Select.projectsStar_names same, same, explicit_map]
  rfl

theorem resultColumns_named (named : q.projectsStar = false) :
    (Node.select q).resultColumns = q.columns.map (·.name) := by
  rw [resultColumns_select, named, if_neg Bool.false_ne_true]

theorem resultColumns_star (star : q.projectsStar = true) : (Node.select q).resultColumns =
    (q.source.map Node.resultColumns).getD [] ++ (q.columns.filter fun b => !b.isWildcard).map (·.name) := by
  rw [resultColumns_select, if_pos star]

theorem resultColumns_wild (wild : q.columns.all (·.isWildcard) = true) :
    (Node.select q).resultColumns = (q.source.map Node.resultColumns).getD [] := by
  have none : q.columns.filter (fun b => !b.isWildcard) = [] :=
    List.filter_eq_nil_iff.mpr fun b column => by simp [List.all_eq_true.mp wild b column]
  rw [resultColumns_star (projectsStar_all wild), none, List.map_nil, List.append_nil]

end Select

namespace Node

theorem Results.resultColumns (results : n.Results names) : n.resultColumns = names := by
  induction results with
  | table => rfl
  | join kind condition _ _ first second =>
    rw [← first, ← second]
    exact fold_mk _ (.join kind _ _ condition)
  | named named => exact Select.resultColumns_named named
  | star wild reads _ ih =>
    rw [Select.resultColumns_wild wild, reads]
    exact ih
  | nothing wild none =>
    rw [Select.resultColumns_wild wild, none]
    rfl

/-- What makes a layer anew, its children first, is known by what it makes of the layers. -/
theorem Results.rebuild {f : Node → Node}
    (layer : ∀ s names, (Node.mk (s.map f)).Results names → (f (.mk s)).Results names) (results : n.Results names) :
    (f n).Results names := by
  induction results with
  | table name label type => exact layer (.table name label type) _ (.table name label type)
  | join kind condition _ _ first second => exact layer (.join kind _ _ condition) _ (.join kind _ first second)
  | @named q named =>
    refine layer (.select q) _ ?_
    have same := Select.names_map q f
    rw [← same]
    exact .named ((Select.projectsStar_names same).trans named)
  | @star q source names wild reads _ ih =>
    refine layer (.select q) _ (.star (Select.all_wildcards_map wild) ?_ ih)
    simp [Select.map, reads]
  | @nothing q wild none =>
    refine layer (.select q) _ (.nothing (Select.all_wildcards_map wild) ?_)
    simp [Select.map, none]

theorem Results.mapUp {rule : Node → Node} (each : ∀ n names, n.Results names → (rule n).Results names)
    (results : n.Results names) : (n.mapUp rule).Results names :=
  results.rebuild fun s names layer => by
    rw [mapUp_mk]
    exact each _ names layer

/-- A select exposes the same as long as its columns and its source do. -/
theorem Results.ofSelect {p q : Select Node} (columns : p.columns = q.columns)
    (source : ∀ s names, q.source = some s → s.Results names → ∃ s', p.source = some s' ∧ s'.Results names)
    (none : q.source = none → p.source = none) (results : (Node.select q).Results names) :
    (Node.select p).Results names := by
  cases results with
  | named named =>
    rw [← columns]
    exact .named ((Select.projectsStar_names (by rw [columns])).trans named)
  | star wild reads below =>
    obtain ⟨s', reads', below'⟩ := source _ _ reads below
    exact .star (columns ▸ wild) reads' below'
  | nothing wild nowhere => exact .nothing (columns ▸ wild) (none nowhere)

end Node

/-- Whatever query such a pass is given, its result keeps the columns, those that wildcards stand for included. -/
def Pass.KeepsWildcards (pass : Pass) : Prop :=
  ∀ (n : Node) (names : List String), n.Results names → (pass.transform n).Results names

theorem IsRule.keepsWildcards {rule : Node → Node} {onSelect : Select Node → Select Node} (r : IsRule rule onSelect)
    {pass : Pass} (made : pass.transform = Node.mapUp rule) : pass.KeepsWildcards := by
  intro n names results
  rw [made]
  refine results.mapUp fun n names results => ?_
  cases id results with
  | table | join => rwa [r.still _ rfl (by simp [Shape.kind])]
  | _ =>
    rw [r.select]
    exact results.ofSelect (r.columns _) (fun s names reads below => ⟨s, (r.source _).trans reads, below⟩)
      (r.source _).trans

namespace Pass

theorem unusedColumns_keepsWildcards : unusedColumns.KeepsWildcards := by
  refine fun n names results => Node.untilStable_keeps (P := (Node.Results · names)) (fun n results => ?_) _ n results
  refine results.mapUp fun n names results => ?_
  unfold pruneSources
  cases id results with
  | table | join => exact results
  | named named =>
    dsimp only
    split
    · exact results
    · exact .named named
  | star wild | nothing wild =>
    dsimp only
    rwa [if_pos (Select.projectsStar_all wild)]

/-! ### Sources that a select can do without -/

theorem skipJoined_star (s : Select Node) : (skipJoined true s).1 = .select s ∨
    s.columns.all (·.isWildcard) = true ∧ s.source = some (skipJoined true s).1 := by
  unfold skipJoined
  split
  · rename_i source mapping reads mapped
    split
    · rename_i through
      refine .inr ⟨?_, reads⟩
      cases wild : s.columns.all (·.isWildcard) with
      | true => rfl
      | false => simp [passesThrough, wild] at through
    · exact .inl rfl
  · exact .inl rfl

theorem skipJoined_results {s : Select Node} (results : (Node.select s).Results names) :
    (skipJoined true s).1.Results names := by
  rcases skipJoined_star s with kept | ⟨wild, reads⟩
  · rwa [kept]
  · cases results with
    | named named => simp [Select.projectsStar_all wild] at named
    | star wild reads' below =>
      cases reads.symm.trans reads'
      exact below
    | nothing wild none => cases reads.symm.trans none

theorem mapSources_results (results : n.Results names) :
    (n.mapSources fun s => (skipJoined true s).1).Results names := by
  induction results with
  | table name label type => exact .table name label type
  | join kind condition _ _ first second => exact .join kind condition first second
  | named named => exact skipJoined_results (.named named)
  | star wild reads below => exact skipJoined_results (.star wild reads below)
  | nothing wild none => exact skipJoined_results (.nothing wild none)

theorem flattenSelect_results {q : Select Node} (results : (Node.select q).Results names) :
    (Node.select (flattenSelect q).1).Results names := by
  cases id results with
  | named named =>
    rw [← flattenSelect_columns q]
    exact .named ((Select.projectsStar_names (by rw [flattenSelect_columns q])).trans named)
  | nothing wild none =>
    unfold flattenSelect
    rwa [none]
  | star wild reads below =>
    have star := Select.projectsStar_all wild
    -- The source decides: only a select that has a wildcard itself is taken in, and gives its own source.
    cases below with
    | table =>
      unfold flattenSelect
      rwa [reads]
    | join kind condition onLeft onRight =>
      unfold flattenSelect
      rw [reads, star]
      exact .star wild rfl (mapSources_results (.join kind condition onLeft onRight))
    | named named =>
      rcases flattenSelect_over reads with ⟨_, _, inherits, _⟩ | kept
      · rw [inherits star] at named
        cases named
      · rwa [kept]
    | star wild' reads' below' =>
      rcases flattenSelect_over reads with ⟨_, _, _, merged⟩ | kept
      · rw [merged]
        exact .star wild reads' below'
      · rwa [kept]
    | nothing wild' none =>
      rcases flattenSelect_over reads with ⟨_, _, _, merged⟩ | kept
      · rw [merged]
        exact .nothing wild none
      · rwa [kept]

theorem flatten_results (results : n.Results names) : (flatten n).1.Results names := by
  refine results.rebuild (f := fun n => (flatten n).1) fun s names layer => ?_
  rw [flatten_mk]
  split
  · rename_i q same
    rw [same] at layer
    exact flattenSelect_results layer
  · exact layer

theorem remap_results (mappings : List Mapping) (results : n.Results names) : (n.remap mappings).Results names := by
  refine results.rebuild fun s _ layer => ?_
  rw [Node.remap, Mapping.follow_mk]
  · exact layer
  · intro column
    cases s with
    | column c => cases layer
    | _ => cases column

theorem sources_keepsWildcards : sources.KeepsWildcards :=
  fun n _ results => remap_results (flatten n).2 (flatten_results results)

/-! ### The pipeline -/

theorem keepWildcards : ∀ pass ∈ all, pass.name ≠ groupAggregates.name → pass.name ≠ equalColumns.name →
    pass.KeepsWildcards := by
  simp only [all, List.forall_mem_cons]
  exact ⟨fun _ _ => flattenKeys_rule.keepsWildcards rfl, fun other => absurd rfl other,
    fun _ _ => unusedColumns_keepsWildcards, fun _ other => absurd rfl other, fun _ _ => sources_keepsWildcards,
    fun _ _ => flattenCall_rule.keepsWildcards rfl, fun _ _ => simplifyConnective_rule.keepsWildcards rfl,
    fun _ _ => expandComparison_rule.keepsWildcards rfl, fun _ _ => foldLiteral_rule.keepsWildcards rfl,
    fun _ _ => unwrapCall_rule.keepsWildcards rfl, fun _ _ => simplifyConditional_rule.keepsWildcards rfl,
    fun _ _ => expandMembership_rule.keepsWildcards rfl, fun _ member => absurd member List.not_mem_nil⟩

theorem others_neglect_wildcards : ¬ groupAggregates.KeepsWildcards ∧ ¬ equalColumns.KeepsWildcards := by
  let x : Node := .column ⟨"t0", "x", .int32⟩
  let above (q : Select Node) : Select Node := { label := "s0", source := some (.select q) }
  let t : Option Node := some (.table "T" "t0" .void)
  constructor
  · intro keeps
    let group : Select Node := { label := "g", columns := [⟨"a", x⟩], source := t, groupBy := [x] }
    let maximum : Node := .groupAggregate "g" (.aggregate .max (some x) false .int32) (.literal .null) .int32
    let n : Node := .select { above group with filter := some (.binary .gt maximum (.literal (.int32 1)) .boolean) }
    have results : n.Results ["a"] := .star rfl rfl (.named rfl)
    exact absurd (keeps n _ results).resultColumns (by decide +kernel)
  · intro keeps
    let n : Node := .select (above { label := "s1", columns := [⟨"a", x⟩, ⟨"b", x⟩], source := t })
    have results : n.Results ["a", "b"] := .star rfl rfl (.named rfl)
    exact absurd (keeps n _ results).resultColumns (by decide +kernel)

end Pass

namespace Pipeline

/-- Without the passes that look at a group or at equal columns alone, what wildcards stand for stays. -/
theorem optimize_resultColumns (p : Pipeline) (keep : ∀ pass ∈ p.passes, pass.KeepsWildcards)
    (results : n.Results names) : (p.optimize n).resultColumns = n.resultColumns := by
  have kept : (p.optimize n).Results names :=
    p.optimize_keeps (fun pass member n => keep pass member n names) results
  rw [kept.resultColumns, results.resultColumns]

/-- The pipeline of all passes loses a column that equals another one. -/
theorem equal_column_lost :
    let x : Node := .column ⟨"t0", "x", .int32⟩
    let inner : Select Node :=
      { label := "s1", columns := [⟨"a", x⟩, ⟨"b", x⟩], source := some (.table "T" "t0" .void) }
    let n : Node := .select { label := "s0", source := some (.select inner) }
    n.resultColumns = ["a", "b"] ∧ (standard.optimize n).resultColumns = ["a"] := by
  intro x inner n
  exact ⟨rfl, by decide +kernel⟩

end Pipeline

end QueryTree
