import QueryTree.Proofs.Pass.EqualColumns
import QueryTree.Proofs.Pass.Types

/-! The types of the columns of a result.

Equal columns are of one type, so a reference to one may name the other. A select that is left without columns would
expose its source, of whose columns its label knows nothing: where labels are distinct, a select drops only columns of
its own, and never the first. So a typed tree stays typed, and its result has columns of the types it had.
-/

set_option autoImplicit false

namespace QueryTree

open Node

variable {Γ : Typing}

namespace Pass

variable {n : Node}

/-! ### Equal columns -/

namespace Duplicate

/-- The first column of a select is never dropped. -/
theorem first_stays {s : Select Node} {columns : List (Binding Node)} (names : (s.columns.map (·.name)).Nodup)
    (same : columns.map (·.name) = s.columns.map (·.name))
    (none : (columns.filter fun b => !drops (of s) b.name) = []) : columns = [] := by
  cases columns with
  | nil => rfl
  | cons b rest =>
    have dropped : drops (of s) b.name = true := by simpa using List.filter_eq_nil_iff.mp none b List.mem_cons_self
    obtain ⟨d, member, named⟩ := List.any_eq_true.mp dropped
    obtain ⟨-, c, inside, later, -⟩ := of_mem member
    cases split : s.columns with
    | nil => rw [split] at inside; cases inside
    | cons first tail =>
      rw [split] at names inside same
      -- A dropped name is that of a later column, and the first one would have it too.
      have again : c.name = first.name := by
        rw [later, beq_iff_eq.mp named]
        exact (List.cons.inj same).1
      exact absurd (List.mem_map.mpr ⟨c, inside, again⟩) (List.nodup_cons.mp names).1

variable {s : Select Node} {d : Duplicate}

theorem named_of_mem (typed : s.Typed Γ) (member : d ∈ of s) : s.projectsStar = false := by
  obtain ⟨-, c, inside, -⟩ := of_mem member
  cases star : s.projectsStar with
  | false => rfl
  | true =>
    have wild := (typed.exposes star).1
    have names := typed.names
    cases split : s.columns with
    | nil => rw [split] at inside; cases inside
    | cons first tail =>
      rw [split] at wild names inside
      -- Two wildcards would be two columns of one name.
      have once : first.name = wildcard := by simpa [Binding.isWildcard] using wild first List.mem_cons_self
      have again : c.name = wildcard := by
        simpa [Binding.isWildcard] using wild c (List.mem_cons_of_mem _ inside)
      exact absurd (List.mem_map.mpr ⟨c, inside, again.trans once.symm⟩) (List.nodup_cons.mp names).1

theorem type_of_mem (typed : s.Typed Γ) (member : d ∈ of s) :
    d.survivor.expr.dataType.underlying = Γ s.label d.survivor.name ∧ Γ s.label d.survivor.name = Γ s.label d.name := by
  have named : ∀ b ∈ s.columns, b.isWildcard = false := by
    simpa using (Bool.or_eq_false_iff.mp (named_of_mem typed member)).2
  obtain ⟨stays, c, inside, sameName, equal⟩ := of_mem member
  have column := List.mem_of_mem_tail inside
  have first := (typed.columns d.survivor stays (named _ stays)).declared
  have second := (typed.columns c column (named c column)).declared
  exact ⟨first, by rw [← first, ← equal, second, sameName]⟩

end Duplicate

theorem redirects_typed {s : Select Node} (typed : s.Typed Γ) :
    (Dropped.mapping s.label (Duplicate.of s)).Faithful (Suits Γ) := by
  refine .ofNames (fun b member c same sameName => takes_value fun reference => ?_) fun _ passes => nomatch passes
  obtain ⟨d, dropped, rfl⟩ := List.mem_map.mp member
  obtain ⟨stays, gone⟩ := Duplicate.type_of_mem typed dropped
  have type : c.type.underlying = Γ c.label c.name := (typed_mk.mp reference).1
  have same : c.label = s.label := same
  have sameName : c.name = d.name := sameName
  rw [same, sameName, ← gone] at type
  exact ⟨typed_mk.mpr ⟨stays, fun _ member => absurd member List.not_mem_nil⟩, rfl, stays.trans type.symm,
    fun _ member => nomatch member⟩

/-- Where labels are distinct, every select drops columns of its own, and never the first. -/
theorem equalColumns_typed (distinct : n.labels.Nodup) (typed : n.Typed Γ) : (equalColumns.transform n).Typed Γ := by
  have own {s : Select Node} (member : s ∈ Dropped.sources n) : s.Typed Γ :=
    (typed_select.mp (typed.subtree (Dropped.sources_mem member))).1
  have dropped : TakesPlace (Suits Γ) n (n.mapUp (dropColumns (Dropped.find n))) := by
    refine suits_frame.mapUp_each fun s inTree f => ?_
    cases s with
    | select q =>
      show TakesPlace _ (.select (q.map f)) (dropColumns _ (.select (q.map f)))
      unfold dropColumns
      dsimp only
      split
      · rename_i found listed
        refine suits_frame.prune List.filter_sublist fun none => ?_
        obtain ⟨e, here, rfl⟩ := Option.map_eq_some_iff.mp listed
        obtain ⟨s, source, rfl⟩ := Dropped.find_mem (List.mem_of_find?_eq_some here)
        have label : s.label = q.label := by simpa [Select.map] using List.find?_some here
        obtain rfl := Node.query_unique (distinct.sublist (Node.queries_labels _)) (Dropped.sources_mem source) inTree label
        exact Duplicate.first_stays (own source).names (Select.names_map s f) none
      · exact .refl _
    | _ => exact .refl _
  -- References follow once all columns are dropped.
  refine suits_frame.follow (fun m member => ?_) _ _ .any (dropped .any typed)
  obtain ⟨e, listed, rfl⟩ := List.mem_map.mp member
  obtain ⟨s, source, rfl⟩ := Dropped.find_mem listed
  exact redirects_typed (own source)

end Pass

/-! ### The pipeline -/

/-- The columns of a select with the types of their values, nulls aside. -/
def Select.columnTypes (q : Select Node) : List (String × DataType) :=
  q.columns.map fun b => (b.name, b.expr.dataType.underlying)

theorem Select.Typed.columnTypes {q : Select Node} (typed : q.Typed Γ) (named : q.projectsStar = false) :
    q.columnTypes = (q.columns.map (·.name)).map fun name => (name, Γ q.label name) := by
  rw [List.map_map]
  refine List.map_congr_left fun b column => ?_
  have other : b.isWildcard = false := by simpa using List.any_eq_false.mp (Bool.or_eq_false_iff.mp named).2 b column
  rw [(typed.columns b column other).declared]
  rfl

namespace Pipeline

/-- Where labels are distinct and stay so, a typed tree stays typed. -/
theorem optimize_typed {n : Node} (copyable : n.Copyable) (distinct : n.labels.Nodup) (typed : n.Typed Γ) :
    (standard.optimize n).Typed Γ := by
  have once {m : Node} (within : m.Within fun label => n.bearers label) : m.labels.Nodup :=
    List.nodup_iff_count_le_one.mpr fun label =>
      (within.few label).trans (List.nodup_iff_count_le_one.mp distinct label)
  -- Equal columns are dropped safely only where labels are distinct, so the rounds carry that too.
  refine (optimize_keeps (P := fun m => m.Typed Γ ∧ m.Within fun label => n.bearers label) standard
    (fun pass member m ⟨typed, within⟩ => ⟨?_, within_placement.passes Pass.rules_within pass member m _ within⟩)
    ⟨typed, copyable.within⟩).1
  rcases suits_frame.passes Pass.rules_typed pass member with each | rfl
  · exact each m .any typed
  · exact Pass.equalColumns_typed (once within) typed

theorem optimize_columnTypes {q : Select Node} (typed : (Node.select q).Typed Γ) (copyable : (Node.select q).Copyable)
    (distinct : (Node.select q).labels.Nodup) (named : q.projectsStar = false) :
    ∃ p, standard.optimize (.select q) = .select p ∧ p.columnTypes = q.columnTypes := by
  obtain ⟨p, optimized, sameLabel, sameNames, -⟩ :=
    optimize_presents standard Pass.all_keepResult (presents_self distinct)
  have kept := optimize_typed copyable distinct typed
  rw [optimized] at kept
  refine ⟨p, optimized, ?_⟩
  rw [(typed_select.mp kept).1.columnTypes ((Select.projectsStar_names sameNames).trans named), sameLabel, sameNames,
    (typed_select.mp typed).1.columnTypes named]

/-- The sum that a column stands for takes its place. -/
theorem optimize_columnTypes_sum :
    let sum : Node := .binary .add (.column ⟨"t0", "x", .int32⟩) (.constant (.int32 1) .int32) .int32
    let inner : Select Node := { label := "s1", columns := [⟨"a", sum⟩], source := some (.table "T" "t0" .void) }
    let q : Select Node :=
      { label := "s0", columns := [⟨"b", .column ⟨"s1", "a", .int32⟩⟩], source := some (.select inner) }
    ∃ p, standard.optimize (.select q) = .select p ∧ p.columnTypes = [("b", .int32)] := by
  intro sum inner q
  have leaf {s : Shape Node} (none : s.children = []) (own : s.Typed fun _ _ => .int32) :
      (Node.mk s).Typed fun _ _ => .int32 := typed_mk.mpr ⟨own, by simp [none]⟩
  have added : sum.Typed fun _ _ => .int32 := by
    refine typed_mk.mpr ⟨⟨⟨rfl, rfl, nofun⟩, isOf_literal (.int32 1), fun _ => rfl⟩, ?_⟩
    simp only [Shape.children, List.forall_mem_cons]
    exact ⟨leaf rfl rfl, leaf rfl trivial, nofun⟩
  have ofSum : sum.IsOf .int32 := ⟨rfl, rfl, fun _ member => nomatch member⟩
  have read : (Node.select inner).Typed fun _ _ => .int32 := by
    refine typed_select.mpr ⟨⟨by decide, nofun, ?_, nofun⟩, ?_⟩
    · simpa [inner] using fun _ => ofSum
    · simpa [inner, Select.children] using ⟨added, leaf rfl trivial⟩
  have typed : (Node.select q).Typed fun _ _ => .int32 := by
    refine typed_select.mpr ⟨⟨by decide, nofun, ?_, nofun⟩, ?_⟩
    · simpa [q] using fun _ => ⟨rfl, rfl, nofun⟩
    · simpa [q, Select.children] using ⟨leaf rfl rfl, read⟩
  exact optimize_columnTypes typed (by unfold Copyable; decide +kernel) (by decide +kernel) (by decide +kernel)

/-- A number by itself takes the place of the text that CONCAT makes of it. -/
theorem columnType_lost :
    let label : Node := .call .concat [.column ⟨"t0", "id", .int32⟩] .text
    let q : Select Node := { label := "s0", columns := [⟨"label", label⟩], source := some (.table "T" "t0" .void) }
    q.columnTypes = [("label", .text)] ∧
      (standard.optimize (.select q)).select?.map Select.columnTypes = some [("label", .int32)] := by
  decide +kernel

end Pipeline

end QueryTree
