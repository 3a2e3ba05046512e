import QueryTree.Dialect.Shipped
import QueryTree.Proofs.Amend.RowNumbers
import QueryTree.Proofs.Pass.ResultColumns

/-! The columns of a result in the dialects at hand.

An amender may build a select anew, in levels of its own, but one that names its columns and no wildcard keeps the
names, in their order, and its label.
-/

set_option autoImplicit false

namespace QueryTree

variable {label : String} {names : List String}

/-- The select at the root exposes columns of these names and no wildcard. -/
def Node.Exposes (label : String) (names : List String) (n : Node) : Prop :=
  ∃ q, n = .select q ∧ q.label = label ∧ q.columns.map (·.name) = names ∧ q.projectsStar = false

/-- What such an amender is given at the root, it gives back there. -/
def Amender.KeepsResult (a : Amender) : Prop :=
  ∀ (label : String) (names : List String) (n : Node), n.Exposes label names → (a.amend n).Exposes label names

namespace Amend

theorem exposes_named {q : Select Node} {f : Select Node → Select Node} (before : (Node.select q).Exposes label names)
    (sameLabel : (f q).label = q.label)
    (sameNames : q.projectsStar = false → (f q).columns.map (·.name) = q.columns.map (·.name)) :
    (Node.select (f q)).Exposes label names := by
  obtain ⟨_, ⟨⟩, rfl, rfl, noStar⟩ := before
  have same := sameNames noStar
  exact ⟨_, rfl, sameLabel, same, (Select.projectsStar_names same).trans noStar⟩

theorem overDistinct_exposes {q : Select Node} (before : (Node.select q).Exposes label names) :
    (Node.select (overDistinct q)).Exposes label names := by
  refine exposes_named (f := overDistinct) before rfl fun noStar => ?_
  unfold overDistinct
  dsimp only
  rw [if_neg (by simp [noStar]), columnsFrom_names]

theorem window_exposes (skip : Node) {q : Select Node} (before : (Node.select q).Exposes label names) :
    (Node.select (window q skip)).Exposes label names := by
  refine exposes_named (f := fun q => window q skip) before rfl fun noStar => ?_
  unfold window
  dsimp only
  rw [if_neg (by simp [noWildcard noStar]), columnsFrom_names]

theorem paginate_exposes (skip : Node) {q : Select Node} (before : (Node.select q).Exposes label names) :
    (Node.select (paginate q skip)).Exposes label names := by
  unfold paginate
  split
  · exact window_exposes skip (overDistinct_exposes before)
  · exact window_exposes skip before

/-- The children may change as long as the root keeps what it exposes. -/
theorem mapUp_exposes {rule : Node → Node} {n : Node}
    (onSelect : ∀ q, (Node.select q).Exposes label names → (rule (.select q)).Exposes label names)
    (before : n.Exposes label names) : (n.mapUp rule).Exposes label names := by
  obtain ⟨q, rfl, rfl, rfl, noStar⟩ := before
  rw [Node.mapUp_mk]
  have same := Select.names_map q (Node.mapUp rule)
  exact onSelect _ ⟨_, rfl, rfl, same, (Select.projectsStar_names same).trans noStar⟩

theorem mapUp_keepsResult {name : String} {rule : Node → Node}
    (onSelect : ∀ label names q, (Node.select q).Exposes label names → (rule (.select q)).Exposes label names) :
    Amender.KeepsResult { name, amend := Node.mapUp rule } :=
  fun label names _ before => mapUp_exposes (onSelect label names) before

theorem rowNumbers_keepsResult : rowNumbers.KeepsResult := by
  refine mapUp_keepsResult fun label names q exposes => ?_
  dsimp only
  split
  · exact paginate_exposes _ exposes
  · exact exposes

theorem bits_keepsResult : bits.KeepsResult := by
  rintro _ _ _ ⟨q, rfl, rfl, rfl, noStar⟩
  -- Only the filter is in the place of a predicate.
  have normalized : bits.amend (.select q) = .select { q.map (normalizeBits · .value) with
      filter := q.filter.map (normalizeBits · .predicate) } := by
    refine (congrFun (Node.para_mk (fun s position =>
      atPosition position (retyped (s.map Prod.fst) (positioned (s.map Prod.snd)))) (.select q)) .value).trans ?_
    simp only [Shape.map, positioned, retyped, atPosition, Node.isPredicate, Select.map, List.map_map, Option.map_map,
      Bool.false_eq_true, if_false]
    rfl
  have same := Select.names_map q (normalizeBits · .value)
  rw [normalized]
  exact ⟨_, rfl, rfl, same, (Select.projectsStar_names same).trans noStar⟩

theorem identityBrackets_keepsResult : identityBrackets.KeepsResult := mapUp_keepsResult fun _ _ _ exposes => exposes

theorem uniqueIndexes_keepsResult : uniqueIndexes.KeepsResult := mapUp_keepsResult fun _ _ _ exposes => exposes

theorem clusteredIndexes_keepsResult : clusteredIndexes.KeepsResult := mapUp_keepsResult fun _ _ _ exposes => exposes

theorem enumDefinitions_keepsResult : enumDefinitions.KeepsResult := by
  rintro label names _ ⟨q, rfl, holds⟩
  unfold enumDefinitions
  simp only [isEnumDefinition, Bool.false_eq_true, if_false]
  exact mapUp_exposes (fun _ exposes => exposes) ⟨q, rfl, holds⟩

end Amend

theorem Dialect.amend_exposes {d : Dialect} (keep : ∀ a ∈ d.amenders, a.KeepsResult) {n : Node}
    (before : n.Exposes label names) : (d.amend n).Exposes label names :=
  List.foldlRecOn _ _ before fun n exposes a member => keep a member label names n exposes

namespace Shipped

theorem amenders_keepResult (d : Shipped) : ∀ a ∈ d.dialect.amenders, a.KeepsResult := by
  cases d with
  | postgres => exact fun _ member => absurd member List.not_mem_nil
  | sqlite => exact List.forall_mem_singleton.mpr Amend.enumDefinitions_keepsResult
  | sqlServer paging =>
    refine List.forall_mem_append.mpr ⟨?_, ?_⟩
    · split
      · exact List.forall_mem_singleton.mpr Amend.rowNumbers_keepsResult
      · exact fun _ member => absurd member List.not_mem_nil
    · simpa only [List.forall_mem_cons] using ⟨Amend.bits_keepsResult, Amend.identityBrackets_keepsResult,
        Amend.uniqueIndexes_keepsResult, Amend.clusteredIndexes_keepsResult, Amend.enumDefinitions_keepsResult,
        fun _ member => absurd member List.not_mem_nil⟩

/-- The columns of a result are read by position, so a query that names its columns is to have the same in the
command. References play no part: it is enough that labels are distinct. -/
theorem result_columns (d : Shipped) {q : Select Node} (distinct : (Node.select q).labels.Nodup)
    (named : q.projectsStar = false) :
    ∃ r, d.dialect.amend (Pipeline.standard.optimize (.select q)) = .select r ∧ r.label = q.label ∧
      r.columns.map (·.name) = q.columns.map (·.name) := by
  obtain ⟨p, optimized, sameLabel, sameNames, -⟩ :=
    Pipeline.standard.optimize_presents Pass.all_keepResult (Node.presents_self distinct)
  have exposed : (Node.select p).Exposes q.label (q.columns.map (·.name)) :=
    ⟨p, rfl, sameLabel, sameNames, (Select.projectsStar_names sameNames).trans named⟩
  obtain ⟨r, amended, label, names, -⟩ := Dialect.amend_exposes d.amenders_keepResult exposed
  exact ⟨r, by rw [optimized]; exact amended, label, names⟩

/-- A page over a select that goes and gives its columns away. -/
theorem result_columns_paged :
    let t (name : String) : Node := .column ⟨"t0", name, .int32⟩
    let s (name : String) : Node := .column ⟨"s", name, .int32⟩
    let inner : Select Node :=
      { label := "s", columns := [⟨"a", t "x"⟩, ⟨"b", t "x"⟩], source := some (.table "t" "t0" (.entity "t")) }
    let q : Select Node :=
      { label := "q", columns := [⟨"b", s "b"⟩, ⟨"a", s "a"⟩], source := some (.select inner), distinct := true
        skip := some (.literal (.int32 10)) }
    (Node.select q).labels.Nodup ∧ q.projectsStar = false ∧
      ∃ r, (Shipped.sqlServer .rowNumber).dialect.amend (Pipeline.standard.optimize (.select q)) = .select r ∧
        r.label = "q" ∧ r.columns.map (·.name) = ["b", "a"] := by
  intro t s inner q
  have distinct : (Node.select q).labels.Nodup := by decide +kernel
  exact ⟨distinct, rfl, result_columns (.sqlServer .rowNumber) distinct rfl⟩

end Shipped

end QueryTree
