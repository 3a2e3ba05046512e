import Mathlib.Data.List.Dedup
import QueryTree.Proofs.Node.Rewriting
import QueryTree.Proofs.Pass.Lifting
import QueryTree.Proofs.Pass.Wildcards

/-! Selects that refer to columns of their sources in place of aggregates, and what that does to the sources.

A source keeps its columns, and those it lacks come after them under names of their own. This adds to what it exposes,
unless it has no columns: an empty list stands for all columns of its source, and one column in it for that column. It
adds to its rows as well if it is distinct and its columns do not determine the new ones.
-/

set_option autoImplicit false

namespace QueryTree

namespace Pass

/-! ### A select and its sources -/

def additions (source : Node) (q : Select Node) : Additions := (liftClauses source.sourceSelects q []).2

/-- A source select of the label has a column by the form. -/
def Declares (source : Node) (form : String × Node) : Prop :=
  ∃ g ∈ source.sourceSelects, g.label = form.1 ∧ ∃ b ∈ g.columns, b.expr = form.2

/-- The select has a column to refer to for every aggregate over a source, by the form of the aggregate and the only one
of its name, once the sources have the columns added that they lack. -/
structure Resolves (source : Node) (q : Select Node) (names : ColumnNames) (added : Additions) : Prop where
  found : ∀ form ∈ q.asked (source.sourceSelects.map (·.label)), ∃ name, names form.1 form.2 = some name
  declares {label : String} {form : Node} {name : String} (called : names label form = some name) :
    ∃ g ∈ source.sourceSelects, g.label = label ∧
      (g.columns ++ Additions.of added label).filter (·.name == name) = [⟨name, form⟩]
  distinct : ∀ g ∈ source.sourceSelects, ((g.columns ++ Additions.of added g.label).map (·.name)).Nodup
  lacked : ∀ a ∈ added, (a.1, a.2.expr) ∈ q.asked (source.sourceSelects.map (·.label)) ∧ ¬ Declares source (a.1, a.2.expr)
  once : (added.map fun a => (a.1, a.2.expr)).Nodup

variable {groups : List (Select Node)} {source : Node} {q : Select Node}

theorem additions_new : ∀ a ∈ additions source q,
    New source.sourceSelects (q.asked (source.sourceSelects.map (·.label))) a := by
  intro a member
  apply ((liftClauses_lifts q).adds [] a member).resolve_left
  exact List.not_mem_nil

theorem liftFrom_eq (source : Node) (q : Select Node) : liftFrom source q =
    if additions source q = [] then q
    else { q.referring (columnName? source.sourceSelects (additions source q)) with
      source := some (source.mapSources (addColumns (additions source q))) } := by
  have lifts : Lifts source.sourceSelects _ (fun names => q.referring names) _ := liftClauses_lifts q
  have answer := lifts.answers [] (List.prefix_refl _)
  rw [additions, ← answer, liftFrom]
  split
  · rename_i lifted none
    rw [none, if_pos rfl]
  · rename_i lifted added some made
    rw [made, if_neg some]

theorem filter_named {α : Type} {columns : List (Binding α)} (distinct : (columns.map (·.name)).Nodup) {b : Binding α}
    (member : b ∈ columns) : columns.filter (·.name == b.name) = [b] := by
  induction columns with
  | nil => cases member
  | cons a rest ih =>
    rw [List.map_cons, List.nodup_cons] at distinct
    obtain ⟨other, distinct⟩ := distinct
    rcases List.mem_cons.mp member with rfl | below
    · have none : rest.filter (·.name == b.name) = [] := by
        rw [List.filter_eq_nil_iff]
        intro c inRest same
        exact other (List.mem_map.mpr ⟨c, inRest, beq_iff_eq.mp same⟩)
      rw [List.filter_cons, if_pos (beq_self_eq_true _), none]
    · rw [List.filter_cons, if_neg, ih distinct below]
      intro same
      exact other (List.mem_map.mpr ⟨b, below, (beq_iff_eq.mp same).symm⟩)

theorem groupNamed_member (labels : (groups.map (·.label)).Nodup) {group : Select Node} (member : group ∈ groups) :
    groupNamed? groups group.label = some group := by
  cases found : groupNamed? groups group.label with
  | none => exact absurd (List.mem_map_of_mem member) (groupNamed_none.mp found)
  | some other =>
    obtain ⟨same, label⟩ := Placement.groupNamed_some found
    rw [List.inj_on_of_nodup_map labels same member label]

theorem columnName_declared (labels : (source.sourceSelects.map (·.label)).Nodup) {label : String} {form : Node} :
    columnName? source.sourceSelects [] label form = none ↔ ¬ Declares source (label, form) := by
  cases found : groupNamed? source.sourceSelects label with
  | none =>
    have none : columnName? source.sourceSelects [] label form = none := by simp only [columnName?, found, Option.bind_none]
    refine iff_of_true none ?_
    rintro ⟨g, member, same, -⟩
    exact groupNamed_none.mp found (List.mem_map.mpr ⟨g, member, same⟩)
  | some group =>
    obtain ⟨member, rfl⟩ := Placement.groupNamed_some found
    rw [columnName_absent found]
    constructor
    · rintro absent ⟨g, inSource, same, b, column, rfl⟩
      obtain rfl : g = group := List.inj_on_of_nodup_map labels inSource member same
      exact absent b (List.mem_append_left _ column) rfl
    · intro undeclared b column same
      refine undeclared ⟨group, member, rfl, b, ?_, same⟩
      simpa [Additions.of] using column

theorem additions_resolves (labels : (source.sourceSelects.map (·.label)).Nodup)
    (names : ∀ g ∈ source.sourceSelects, (g.columns.map (·.name)).Nodup) :
    Resolves source q (columnName? source.sourceSelects (additions source q)) (additions source q) := by
  have lifts : Lifts source.sourceSelects _ (fun names => q.referring names) _ := liftClauses_lifts q
  -- Names are distinct before anything is added, and each addition keeps them so.
  have before : Distinct source.sourceSelects [] := by
    constructor
    · intro label group found
      obtain ⟨member, rfl⟩ := Placement.groupNamed_some found
      simpa [Additions.of] using names group member
    · exact List.nodup_nil
  have after := lifts.distinct [] before
  have distinct (g : Select Node) (member : g ∈ source.sourceSelects) :
      ((g.columns ++ Additions.of (additions source q) g.label).map (·.name)).Nodup :=
    after.names (groupNamed_member labels member)
  constructor
  case found => exact lifts.finds []
  case distinct => exact distinct
  case once => exact after.forms
  case lacked =>
    intro a member
    have new := additions_new a member
    exact ⟨new.asked, (columnName_declared labels).mp new.lacked⟩
  case declares =>
    intro label form name called
    obtain ⟨group, found, called⟩ := Option.bind_eq_some_iff.mp called
    obtain ⟨member, rfl⟩ := Placement.groupNamed_some found
    obtain ⟨b, first, rfl⟩ := Option.map_eq_some_iff.mp called
    have column := List.mem_of_find?_eq_some first
    obtain rfl : b.expr = form := by simpa using List.find?_some first
    exact ⟨group, member, rfl, filter_named (distinct group member) column⟩

/-- Where a source lacks a column for an aggregate, all aggregates over sources are replaced. -/
theorem liftFrom_resolves (labels : (source.sourceSelects.map (·.label)).Nodup)
    (names : ∀ g ∈ source.sourceSelects, (g.columns.map (·.name)).Nodup)
    (lacks : ∃ form ∈ q.asked (source.sourceSelects.map (·.label)), ¬ Declares source form) :
    ∃ names added, Resolves source q names added ∧ liftFrom source q =
      { q.referring names with source := some (source.mapSources (addColumns added)) } := by
  refine ⟨_, _, additions_resolves labels names, ?_⟩
  rw [liftFrom_eq, if_neg]
  intro none
  obtain ⟨form, asked, undeclared⟩ := lacks
  obtain ⟨name, called⟩ := (additions_resolves (q := q) labels names).found form asked
  rw [none, (columnName_declared labels).mpr undeclared] at called
  cases called

/-- Where no column is lacking, the aggregates stay, although there are columns to refer to. -/
theorem liftFrom_stays (labels : (source.sourceSelects.map (·.label)).Nodup)
    (declared : ∀ form ∈ q.asked (source.sourceSelects.map (·.label)), Declares source form) : liftFrom source q = q := by
  rw [liftFrom_eq, if_pos]
  by_contra some
  obtain ⟨a, added⟩ := List.exists_mem_of_ne_nil _ some
  have new := additions_new a added
  exact (columnName_declared labels).mp new.lacked (declared _ new.asked)

namespace Resolves

variable {names : ColumnNames} {added : Additions} (resolves : Resolves source q names added)

include resolves

theorem replaced : ∀ c ∈ (q.referring names).ownExprs, ∀ form ∈ c.groupForms,
    form.1 ∉ source.sourceSelects.map (·.label) := by
  rw [Select.ownExprs_referring]
  simp only [List.forall_mem_map]
  intro c own
  apply Node.groupForms_referring
  intro form asked
  exact resolves.found form (List.mem_flatMap.mpr ⟨c, own, asked⟩)

end Resolves

theorem sourceSelects_addColumns (added : Additions) (source : Node) :
    (source.mapSources (addColumns added)).sourceSelects =
      source.sourceSelects.map fun g => { g with columns := g.columns ++ Additions.of added g.label } := by
  induction source using Node.inductNode with
  | step shape ih =>
    cases shape with
    | select q => rfl
    | join kind left right condition =>
      show (left.mapSources _).sourceSelects ++ (right.mapSources _).sourceSelects =
        (left.sourceSelects ++ right.sourceSelects).map _
      rw [ih left (by simp [Shape.children]), ih right (by simp [Shape.children]), List.map_append]
    | _ => rfl

/-! ### Whole trees -/

theorem groupAggregates_mk (s : Shape Node) :
    groupAggregates.transform (.mk s) = liftSelect (.mk (s.map groupAggregates.transform)) := Node.mapUp_mk liftSelect s

theorem groupAggregates_select (reads : q.source = some source) : groupAggregates.transform (.select q) =
    .select (liftFrom (groupAggregates.transform source) (q.map groupAggregates.transform)) := by
  have inside : (q.map groupAggregates.transform).source = some (groupAggregates.transform source) := by
    simp [Select.map, reads]
  rw [groupAggregates_mk]
  show liftSelect (.select (q.map groupAggregates.transform)) = _
  rw [liftSelect, inside]

theorem liftSelect_names (q : Select Node) : ∃ p, liftSelect (.select q) = .select p ∧ p.label = q.label ∧
    p.columns.map (·.name) = q.columns.map (·.name) := by
  unfold liftSelect
  dsimp only
  split
  · rename_i source _
    refine ⟨_, rfl, ?_⟩
    rw [liftFrom_eq]
    split
    · exact ⟨rfl, rfl⟩
    · simp [Select.referring, Binding.map, Function.comp_def]
  · exact ⟨q, rfl, rfl, rfl⟩

theorem sourceSelects_names (source : Node) :
    (groupAggregates.transform source).sourceSelects.map (fun g => (g.label, g.columns.map (·.name))) =
      source.sourceSelects.map fun g => (g.label, g.columns.map (·.name)) := by
  induction source using Node.inductNode with
  | step shape ih =>
    cases shape with
    | select q =>
      obtain ⟨p, made, label, names⟩ := liftSelect_names (q.map groupAggregates.transform)
      have lifted : groupAggregates.transform (.select q) = .select p := (groupAggregates_mk (.select q)).trans made
      rw [Select.names_map] at names
      rw [lifted]
      show [(p.label, p.columns.map (·.name))] = [(q.label, q.columns.map (·.name))]
      rw [label, names]
      rfl
    | join kind left right condition =>
      have parts : (groupAggregates.transform (.join kind left right condition)).sourceSelects =
          (groupAggregates.transform left).sourceSelects ++ (groupAggregates.transform right).sourceSelects :=
        congrArg Node.sourceSelects (groupAggregates_mk (.join kind left right condition))
      rw [parts, List.map_append, ih left (by simp [Shape.children]), ih right (by simp [Shape.children]),
        ← List.map_append]
      rfl
    | _ => rfl

theorem sourceSelects_labels (source : Node) :
    (groupAggregates.transform source).sourceSelects.map (·.label) = source.sourceSelects.map (·.label) := by
  simpa [Function.comp_def] using congrArg (List.map Prod.fst) (sourceSelects_names source)

/-- In any tree, a select whose sources have distinct labels and distinct names refers to columns of theirs in place of all
aggregates over them, as soon as one of these has no column yet. What it and the sources hold was rewritten before. -/
theorem groupAggregates_resolves (reads : q.source = some source) (labels : (source.sourceSelects.map (·.label)).Nodup)
    (names : ∀ g ∈ source.sourceSelects, (g.columns.map (·.name)).Nodup)
    (lacks : ∃ form ∈ (q.map groupAggregates.transform).asked (source.sourceSelects.map (·.label)),
      ¬ Declares (groupAggregates.transform source) form) :
    ∃ names added, Resolves (groupAggregates.transform source) (q.map groupAggregates.transform) names added ∧
      groupAggregates.transform (.select q) = .select { (q.map groupAggregates.transform).referring names with
        source := some ((groupAggregates.transform source).mapSources (addColumns added)) } := by
  have same := sourceSelects_names source
  have distinct : ∀ g ∈ (groupAggregates.transform source).sourceSelects, (g.columns.map (·.name)).Nodup := by
    intro g member
    have listed : (g.label, g.columns.map (·.name)) ∈ source.sourceSelects.map fun g => (g.label, g.columns.map (·.name)) :=
      same ▸ List.mem_map_of_mem member
    obtain ⟨g', inSource, alike⟩ := List.mem_map.mp listed
    rw [← (Prod.mk.inj alike).2]
    exact names g' inSource
  rw [groupAggregates_select reads]
  rw [← sourceSelects_labels] at labels lacks
  obtain ⟨names, added, resolves, made⟩ := liftFrom_resolves labels distinct lacks
  exact ⟨names, added, resolves, congrArg _ made⟩

theorem groupAggregates_stays (reads : q.source = some source) (labels : (source.sourceSelects.map (·.label)).Nodup)
    (declared : ∀ form ∈ (q.map groupAggregates.transform).asked (source.sourceSelects.map (·.label)),
      Declares (groupAggregates.transform source) form) :
    groupAggregates.transform (.select q) = .select (q.map groupAggregates.transform) := by
  rw [← sourceSelects_labels] at labels declared
  rw [groupAggregates_select reads, liftFrom_stays labels declared]

/-- The aggregate stays, although the group has the column `n` for it. -/
theorem declared_count_stays :
    let count : Node := .aggregate .count none false .int32
    let status : Node := .column ⟨"t0", "status", .text⟩
    let group : Select Node :=
      { label := "g", columns := [⟨"status", status⟩, ⟨"n", count⟩], source := some (.table "orders" "t0" .void)
        groupBy := [status] }
    let asQuery : Node := .scalarQuery { label := "s9", columns := [⟨"c", count⟩], source := some (.table "orders" "t9" .void) }
    let report : Select Node :=
      { label := "s0", source := some (.select group)
        columns := [⟨"status", .column ⟨"g", "status", .text⟩⟩, ⟨"count", .groupAggregate "g" count asQuery .int32⟩] }
    report.asked ["g"] = [("g", count)] ∧ columnName? [group] [] "g" count = some "n" ∧
      groupAggregates.transform (.select report) = .select report := by
  decide +kernel

/-! ### What the sources expose -/

theorem candidate_named (n : Nat) : candidate n ≠ Node.wildcard := by
  intro same
  simpa [candidate, Node.wildcard] using congrArg (·.toList.head?) same

theorem Additions.of_member {added : Additions} {label : String} {b : Binding Node} :
    b ∈ of added label ↔ (label, b) ∈ added := by
  simp [of]

theorem of_additions {label : String} {b : Binding Node} (member : b ∈ Additions.of (additions source q) label) :
    b.isWildcard = false ∧ (label, b.expr) ∈ q.asked (source.sourceSelects.map (·.label)) := by
  have new := additions_new _ (Additions.of_member.mp member)
  obtain ⟨n, named⟩ := new.named
  refine ⟨?_, new.asked⟩
  rw [Binding.isWildcard, named]
  exact beq_eq_false_iff_ne.mpr (candidate_named n)

theorem addColumns_listed {added : Additions} {g : Select Node} (listed : g.columns ≠ [])
    (named : ∀ b ∈ Additions.of added g.label, b.isWildcard = false) :
    (addColumns added g).resultColumns =
      (Node.select g).resultColumns ++ (Additions.of added g.label).map (·.name) := by
  unfold addColumns
  generalize Additions.of added g.label = extra at named ⊢
  have none : extra.any (·.isWildcard) = false := List.any_eq_false.mpr fun b member => by simp [named b member]
  have all : extra.filter (fun b => !b.isWildcard) = extra := List.filter_eq_self.mpr fun b member => by simp [named b member]
  have same : ({ g with columns := g.columns ++ extra } : Select Node).projectsStar = g.projectsStar := by
    simp [Select.projectsStar, List.any_append, none, List.isEmpty_eq_false_iff.mpr listed,
      List.isEmpty_eq_false_iff.mpr (List.append_ne_nil_of_left_ne_nil listed extra)]
  rw [Select.resultColumns_select, Select.resultColumns_select, same]
  split
  · rw [List.filter_append, all, List.map_append, List.append_assoc]
  · exact List.map_append

theorem addColumns_empty {added : Additions} {g : Select Node} (empty : g.columns = [])
    (some : Additions.of added g.label ≠ []) (named : ∀ b ∈ Additions.of added g.label, b.isWildcard = false) :
    (addColumns added g).resultColumns = (Additions.of added g.label).map (·.name) := by
  unfold addColumns
  rw [empty, List.nil_append, Select.resultColumns_named]
  simpa [Select.projectsStar, some] using named

theorem resultColumns_join (kind : JoinKind) (left right : Node) (condition : Option Node) :
    (Node.join kind left right condition).resultColumns = left.resultColumns ++ right.resultColumns :=
  Node.fold_mk _ (.join kind left right condition)

theorem mapSources_exposes {added : Additions}
    (listed : ∀ g ∈ source.sourceSelects, g.columns = [] → Additions.of added g.label = [])
    (named : ∀ g ∈ source.sourceSelects, ∀ b ∈ Additions.of added g.label, b.isWildcard = false) :
    source.resultColumns.Sublist (source.mapSources (addColumns added)).resultColumns := by
  induction source using Node.inductNode with
  | step shape ih =>
    cases shape with
    | select g =>
      have member : g ∈ (Node.select g).sourceSelects := List.mem_singleton.mpr rfl
      rw [Node.mapSources]
      -- An empty list stands for all columns, and nothing is added to it.
      by_cases empty : g.columns = []
      · have still : addColumns added g = .select g := by simp [addColumns, listed g member empty]
        rw [still]
      · rw [addColumns_listed empty (named g member)]
        exact List.sublist_append_left _ _
    | join kind left right condition =>
      rw [Node.mapSources, resultColumns_join, resultColumns_join]
      apply List.Sublist.append
      · apply ih left (by simp [Shape.children])
        · exact fun g member => listed g (List.mem_append_left _ member)
        · exact fun g member => named g (List.mem_append_left _ member)
      · apply ih right (by simp [Shape.children])
        · exact fun g member => listed g (List.mem_append_right _ member)
        · exact fun g member => named g (List.mem_append_right _ member)
    | _ => exact List.Sublist.refl _

/-- A select exposes as much as one of the same names over a source that exposes as much. -/
theorem resultColumns_sublist {p q : Select Node} (names : p.columns.map (·.name) = q.columns.map (·.name))
    (source : ((q.source.map Node.resultColumns).getD []).Sublist ((p.source.map Node.resultColumns).getD [])) :
    (Node.select q).resultColumns.Sublist (Node.select p).resultColumns := by
  have explicit (r : Select Node) : (r.columns.filter fun b => !b.isWildcard).map (·.name) =
      (r.columns.map (·.name)).filter fun name => !(name == Node.wildcard) := by
    rw [List.filter_map]
    rfl
  rw [Select.resultColumns_select, Select.resultColumns_select, Select.projectsStar_names names, explicit, explicit, names]
  split
  · exact source.append (List.Sublist.refl _)
  · exact List.Sublist.refl _

end Pass

/-! ### What queries expose -/

/-- Is no aggregate over the group of the label. -/
def Shape.spares (label : String) : Shape Unit → Bool
  | .groupAggregate other _ _ _ => other != label
  | _ => true

namespace Node

variable {label : String} {n : Node}

theorem asked_groupForms {labels : List String} : ∀ form ∈ n.asked labels, form ∈ n.groupForms := by
  induction n using inductLevel with
  | aggregate label inGroup asQuery type first second =>
    intro form asked
    rw [asked_aggregate] at asked
    rw [Placement.groupForms_mk]
    split at asked
    · obtain rfl := List.mem_singleton.mp asked
      exact List.mem_cons_self
    · apply List.mem_cons_of_mem
      exact List.mem_append.mpr ((List.mem_append.mp asked).imp (first form) (second form))
  | select q => simp
  | subquery kind operand query type => simp
  | passed s passed ih =>
    intro form asked
    rw [asked_passed passed] at asked
    rw [groupForms_passed passed]
    obtain ⟨c, child, inside⟩ := List.mem_flatMap.mp asked
    exact List.mem_flatMap.mpr ⟨c, child, ih c child form inside⟩

theorem asked_spared {labels : List String} (spared : n.every (Shape.spares label) = true) (e : Node) :
    (label, e) ∉ n.asked labels := by
  intro asked
  obtain ⟨asQuery, type, member⟩ := Placement.groupForms_mem (asked_groupForms _ asked)
  have other : (label != label) = true := every_subtree spared member
  simp at other

end Node

namespace Pass

theorem groupAggregates_spares {label : String} {n : Node} (spared : n.every (Shape.spares label) = true) :
    (groupAggregates.transform n).every (Shape.spares label) = true :=
  groupAggregates_holds (Node.every_layerwise (fun _ => rfl) (fun _ => rfl) fun _ _ _ => rfl) spared

variable {source : Node} {q : Select Node}

theorem additions_listed (spared : ∀ g ∈ source.sourceSelects, g.columns = [] →
      ∀ c ∈ q.children, c.every (Shape.spares g.label) = true) :
    ∀ g ∈ (groupAggregates.transform source).sourceSelects, g.columns = [] →
      Additions.of (additions (groupAggregates.transform source) (q.map groupAggregates.transform)) g.label = [] := by
  intro g member empty
  have listed : (g.label, g.columns.map (·.name)) ∈ source.sourceSelects.map fun g => (g.label, g.columns.map (·.name)) :=
    sourceSelects_names source ▸ List.mem_map_of_mem member
  obtain ⟨before, inSource, same⟩ := List.mem_map.mp listed
  obtain ⟨sameLabel, sameNames⟩ := Prod.mk.inj same
  have emptyBefore : before.columns = [] := by simpa [empty] using sameNames
  by_contra some
  obtain ⟨b, added⟩ := List.exists_mem_of_ne_nil _ some
  obtain ⟨-, asked⟩ := of_additions added
  obtain ⟨_, lifted, asked⟩ := List.mem_flatMap.mp asked
  rw [Select.ownExprs_map] at lifted
  obtain ⟨c, own, rfl⟩ := List.mem_map.mp lifted
  have spares := spared before inSource emptyBefore c (Select.ownExprs_child own)
  rw [sameLabel] at spares
  exact Node.asked_spared (groupAggregates_spares spares) _ asked

/-- Every query exposes what it did, if no aggregate is over a select without columns. -/
theorem groupAggregates_exposes {n : Node}
    (spared : ∀ q ∈ n.queries, q.columns = [] → n.every (Shape.spares q.label) = true) :
    n.resultColumns.Sublist (groupAggregates.transform n).resultColumns := by
  induction n using Node.inductNode with
  | step shape ih =>
    have below (c : Node) (child : c ∈ shape.children) :
        c.resultColumns.Sublist (groupAggregates.transform c).resultColumns := by
      apply ih c child
      intro q member empty
      have whole : q ∈ (Node.mk shape).queries := by
        rw [Node.queries_mk]
        exact List.mem_append_right _ (List.mem_flatMap.mpr ⟨c, child, member⟩)
      exact (Node.every_mk.mp (spared q whole empty)).2 c child
    cases shape with
    | select q =>
      have names := Select.names_map q groupAggregates.transform
      cases reads : q.source with
      | none =>
        have made : groupAggregates.transform (.select q) = .select (q.map groupAggregates.transform) := by
          rw [groupAggregates_mk]
          show liftSelect (.select (q.map groupAggregates.transform)) = _
          simp [liftSelect, Select.map, reads]
        rw [made]
        apply resultColumns_sublist names
        simp [reads, Select.map]
      | some source =>
        have inside := below source (Select.source_child reads)
        -- No column is added to a list that is empty and so stands for all columns.
        have listed := @additions_listed source q fun g member empty => by
          apply (Node.every_mk.mp (spared g _ empty)).2
          rw [Node.mem_queries]
          exact Node.mem_subtrees_of_child (Select.source_child reads) (Node.sourceSelects_mem member)
        rw [groupAggregates_select reads, liftFrom_eq]
        split
        · apply resultColumns_sublist names
          simpa [reads, Select.map] using inside
        · apply resultColumns_sublist
          · rw [← names]
            simp [Select.referring, Binding.map, Function.comp_def]
          · rw [reads]
            exact inside.trans (mapSources_exposes listed fun g _ b member => (of_additions member).1)
    | join kind left right condition =>
      have made : groupAggregates.transform (.join kind left right condition) =
          .join kind (groupAggregates.transform left) (groupAggregates.transform right)
            (condition.map groupAggregates.transform) := groupAggregates_mk (.join kind left right condition)
      rw [made, resultColumns_join, resultColumns_join]
      exact (below left (by simp [Shape.children])).append (below right (by simp [Shape.children]))
    | table name label type => exact List.Sublist.refl _
    | _ =>
      refine List.Sublist.trans ?_ (List.nil_sublist _)
      exact List.Sublist.refl _

/-- A group without columns exposed all columns of its source, and now exposes the aggregate alone. -/
theorem star_group_narrowed :
    let count : Node := .aggregate .count none false .int32
    let group : Select Node :=
      { label := "g", source := some (.table "orders" "t0" .void), groupBy := [.column ⟨"t0", "kind", .text⟩] }
    let report : Select Node :=
      { label := "s0", source := some (.select group)
        columns := [⟨"count", .groupAggregate "g" count (.scalarQuery group) .int32⟩] }
    let exposed (n : Node) : List (List String) := n.queries.map fun q => (Node.select q).resultColumns
    exposed (.select report) = [["count"], ["orders.*"], ["orders.*"]] ∧
      exposed (groupAggregates.transform (.select report)) = [["count"], ["__agg0"]] := by
  decide +kernel

end Pass

/-! ### Rows of a distinct source -/

/-- The rows of a select over what its filter and its groups leave, by the values that expressions have there. -/
def Select.rowsOver {ρ α : Type} [DecidableEq α] (value : ρ → Node → α) (q : Select Node) (rows : List ρ) :
    List (List α) :=
  let results := rows.map fun r => q.columns.map fun b => value r b.expr
  if q.distinct then results.dedup else results

namespace Pass

section Rows

variable {ρ α β : Type}

theorem dedup_determined [DecidableEq α] [DecidableEq β] {f : ρ → α} {g : ρ → β} {h : β → α} {rows : List ρ}
    (reads : ∀ r, h (g r) = f r) (determined : ∀ r ∈ rows, ∀ r' ∈ rows, f r = f r' → g r = g r') :
    (rows.map g).dedup.map h = (rows.map f).dedup := by
  induction rows with
  | nil => rfl
  | cons r rest ih =>
    have below := ih fun a first b second => determined a (List.mem_cons_of_mem _ first) b (List.mem_cons_of_mem _ second)
    by_cases again : f r ∈ rest.map f
    · obtain ⟨r', member, same⟩ := List.mem_map.mp again
      have againG : g r ∈ rest.map g :=
        List.mem_map.mpr ⟨r', member, determined r' (List.mem_cons_of_mem _ member) r List.mem_cons_self same⟩
      rw [List.map_cons, List.map_cons, List.dedup_cons_of_mem againG, List.dedup_cons_of_mem again, below]
    · have newG : g r ∉ rest.map g := by
        intro member
        obtain ⟨r', inRest, same⟩ := List.mem_map.mp member
        exact again (List.mem_map.mpr ⟨r', inRest, by rw [← reads, same, reads]⟩)
      rw [List.map_cons, List.map_cons, List.dedup_cons_of_notMem newG, List.dedup_cons_of_notMem again, List.map_cons,
        below, reads]

variable [DecidableEq α] (value : ρ → Node → α) {g : Select Node} {extra : List (Binding Node)} {rows : List ρ}

/-- A source that is not distinct has the rows it had, each with the added values after its own. -/
theorem rowsOver_extended (plain : g.distinct = false) :
    (({ g with columns := g.columns ++ extra } : Select Node).rowsOver value rows).map (List.take g.columns.length) =
      g.rowsOver value rows := by
  simp [Select.rowsOver, plain, List.map_append]

/-- A distinct source has the rows it had just in case its own columns determine the added ones. -/
theorem rowsOver_distinct (distinct : g.distinct = true) :
    (({ g with columns := g.columns ++ extra } : Select Node).rowsOver value rows).map (List.take g.columns.length) =
        g.rowsOver value rows ↔
      ∀ r ∈ rows, ∀ r' ∈ rows, (∀ b ∈ g.columns, value r b.expr = value r' b.expr) →
        ∀ b ∈ extra, value r b.expr = value r' b.expr := by
  let own (r : ρ) : List α := g.columns.map fun b => value r b.expr
  let whole (r : ρ) : List α := (g.columns ++ extra).map fun b => value r b.expr
  have reads (r : ρ) : (whole r).take g.columns.length = own r := by simp [whole, own, List.map_append]
  have rowsOwn : g.rowsOver value rows = (rows.map own).dedup := by simp only [Select.rowsOver, distinct, if_true, own]
  have rowsWhole : ({ g with columns := g.columns ++ extra } : Select Node).rowsOver value rows = (rows.map whole).dedup := by
    simp only [Select.rowsOver, distinct, if_true, whole]
  rw [rowsOwn, rowsWhole]
  constructor
  · intro same r first r' second alike b added
    -- Rows that are told apart by the added columns alone would come to be one row twice.
    have distinctRows : ((rows.map whole).dedup.map (List.take g.columns.length)).Nodup := same ▸ List.nodup_dedup _
    have sameOwn : own r = own r' := List.map_congr_left alike
    have sameWhole : whole r = whole r' := by
      apply List.inj_on_of_nodup_map distinctRows
      · exact List.mem_dedup.mpr (List.mem_map_of_mem first)
      · exact List.mem_dedup.mpr (List.mem_map_of_mem second)
      · rw [reads, reads, sameOwn]
    exact List.map_inj_left.mp sameWhole b (List.mem_append_right _ added)
  · intro determined
    apply dedup_determined reads
    intro r first r' second alike
    apply List.map_congr_left
    intro b member
    have same : ∀ b ∈ g.columns, value r b.expr = value r' b.expr := List.map_inj_left.mp alike
    rcases List.mem_append.mp member with column | added
    · exact same b column
    · exact determined r first r' second same b added

end Rows

/-- Of two groups of one kind the source had one row, and has two with how many orders there are in each. -/
theorem distinct_group_extended :
    let count : Node := .aggregate .count none false .int32
    let t (name : String) : Node := .column ⟨"t0", name, .text⟩
    let group : Select Node :=
      { label := "g", columns := [⟨"kind", t "kind"⟩], source := some (.table "orders" "t0" .void)
        groupBy := [t "kind", t "day"], distinct := true }
    let counted : Select Node := { group with columns := [⟨"kind", t "kind"⟩, ⟨"__agg1", count⟩] }
    let report (expr : Node) (source : Select Node) : Node :=
      .select { label := "s0", columns := [⟨"count", expr⟩], source := some (.select source) }
    let value (r : Nat × Nat) (e : Node) : Nat := if e = count then r.2 else r.1
    groupAggregates.transform (report (.groupAggregate "g" count (.scalarQuery group) .int32) group) =
        report (.column ⟨"g", "__agg1", .int32⟩) counted ∧
      group.rowsOver value [(7, 1), (7, 2)] = [[7]] ∧ counted.rowsOver value [(7, 1), (7, 2)] = [[7, 1], [7, 2]] := by
  decide +kernel

end Pass

end QueryTree
