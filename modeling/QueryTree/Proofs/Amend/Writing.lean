import QueryTree.Dialect.Shipped
import QueryTree.Proofs.Amend.Positions
import QueryTree.Proofs.Amend.RowNumbers
import QueryTree.Proofs.Dialect.Roles

/-! What can be written before and after a tree is amended.

Amending neither makes a tree that cannot be written one that can, nor the other way round. All that goes is the order of
a distinct select that skips rows: it is said of columns, and an item that no column answers to is left out.
-/

set_option autoImplicit false

namespace QueryTree

namespace Node

variable {v w : Draft} {r : Role} {s : Shape Node} {n : Node}

theorem writable_statement (free : v.lost = none) (statement : s.isStatement = true) :
    (Node.mk s).Writable v r ↔ r = .unwritten := by
  constructor
  · intro writable
    have fits := (writable_mk.mp writable).1
    cases r with
    | unwritten => rfl
    | _ => cases s <;> first | cases statement; done | cases fits
  · rintro rfl
    exact writable_unwritten free _

/-- A rule that is told by layers, with the roles of the tree before it, is told so of a whole tree. -/
theorem mapUp_writable {rule : Node → Node} (layer : ∀ (s : Shape Node) r,
    (rule (.mk s)).Writable v r ↔ s.fits w r = true ∧ ∀ x ∈ s.roles w r, x.2.Writable v x.1) (n : Node) (r : Role) :
    (n.mapUp rule).Writable v r ↔ n.Writable w r := by
  induction n using inductNode generalizing r with
  | step s ih =>
    rw [mapUp_mk, layer, Shape.fits_map, Shape.roles_map, List.forall_mem_map, writable_mk]
    exact and_congr_right fun _ => forall₂_congr fun x member => ih x.2 (Shape.roles_child member) x.1

theorem mapUp_same {rule : Node → Node} (each : ∀ n r, (rule n).Writable v r ↔ n.Writable v r) :
    (n.mapUp rule).Writable v r ↔ n.Writable v r :=
  mapUp_writable (fun s r => (each (.mk s) r).trans writable_mk) n r

end Node

namespace Amend

variable {v : Draft} {r : Role} {n : Node}

/-! ### Statements -/

section Statements

variable (free : v.lost = none)

include free

theorem identityBrackets_writable : (identityBrackets.amend n).Writable v r ↔ n.Writable v r := by
  simp only [identityBrackets]
  refine Node.mapUp_same fun n r => ?_
  split
  · split
    · rw [bracketed, Node.writable_statement free rfl, Node.writable_statement free rfl]
    · rfl
  · split
    · rw [bracketed, Node.writable_statement free rfl, Node.writable_statement free rfl]
    · rfl
  · rfl

theorem uniqueIndexes_writable : (uniqueIndexes.amend n).Writable v r ↔ n.Writable v r := by
  simp only [uniqueIndexes]
  refine Node.mapUp_same fun n r => ?_
  split
  · split
    · split
      · rw [Node.writable_statement free rfl, Node.writable_statement free rfl]
      · rfl
    · rfl
  · rfl

theorem clusteredIndexes_writable : (clusteredIndexes.amend n).Writable v r ↔ n.Writable v r := by
  simp only [clusteredIndexes]
  refine Node.mapUp_same fun n r => ?_
  split
  · rw [Node.writable_statement free rfl, Node.writable_statement free rfl]
  · rfl

theorem enumDefinitions_writable : (enumDefinitions.amend n).Writable v r ↔ n.Writable v r := by
  simp only [enumDefinitions]
  split
  · rename_i definition
    unfold isEnumDefinition at definition
    split at definition
    · rw [Node.writable_statement free rfl, Node.writable_statement free rfl]
    · cases definition
  · refine Node.mapUp_same fun n r => ?_
    split
    · rw [Node.writable_statement free rfl, Node.writable_statement free rfl]
    · rfl

end Statements

/-! ### Row numbers -/

section RowNumbers

variable {q : Select Node} {skip : Node}

theorem writable_column (free : v.lost = none) (c : Column) : (Node.column c).Writable v .expression :=
  Node.writable_column.mpr (.inr ⟨rfl, by simp [Draft.shows, free]⟩)

theorem writable_upperBound {skip take : Node} : (upperBound skip take).Writable v .expression ↔
    skip.Writable v .expression ∧ take.Writable v .expression := by
  rcases upperBound_cases skip take with sum | ⟨_, _, _, _, u, _, first, second, _, _, literal, _⟩
  · rw [sum, Node.ofBinary, Node.writable_binary]
  · obtain ⟨_, rfl⟩ := Node.constant_some first
    obtain ⟨_, rfl⟩ := Node.constant_some second
    rw [literal]
    exact iff_of_true (Node.writable_constant _ _) ⟨Node.writable_constant _ _, Node.writable_constant _ _⟩

theorem writable_windowOrder (free : v.lost = none)
    (columns : ∀ b ∈ q.columns, b.expr.Writable v b.role) :
    (∀ o ∈ windowOrder q, o.expr.Writable v .expression) ↔ ∀ o ∈ q.orderBy, o.expr.Writable v .expression := by
  unfold windowOrder
  dsimp only
  split
  · rfl
  · rename_i empty
    have none : q.orderBy = [] := by simpa using empty
    rw [none]
    refine iff_of_true ?_ (by simp)
    split
    · refine List.forall_mem_map.mpr fun b member => ?_
      obtain ⟨member, named⟩ := List.mem_filter.mp member
      simp only [Bool.and_eq_true, Bool.not_eq_true'] at named
      simpa [Binding.role, named.1] using columns b member
    · refine List.forall_mem_singleton.mpr (Node.writable_mk.mpr ⟨rfl, ?_⟩)
      -- Without columns to sort by, the numbering sorts by a query that selects null.
      have null : (Node.select { label := "", columns := [⟨"", .null .unknown⟩] }).Writable v .query := by
        rw [Node.writable_select (by simp), Select.written_iff]
        have literal : (Node.null .unknown).Writable v .expression := Node.writable_constant _ _
        simpa [Draft.shows, free, Binding.role, Binding.isWildcard, Node.wildcard] using literal
      simpa [Shape.roles, Role.within] using null

/-- What a select has its rows from can be written. -/
def RowsWritten (v : Draft) (q : Select Node) : Prop :=
  (∀ b ∈ q.columns, b.expr.Writable v b.role) ∧
    (∀ s ∈ q.source, s.Writable v .source) ∧ (∀ f ∈ q.filter, f.Writable v .expression) ∧
    ∀ g ∈ q.groupBy, g.Writable v .expression

theorem written_rows : q.Written v ↔ RowsWritten v q ∧ (∀ o ∈ q.orderBy, o.expr.Writable v (v.order q)) ∧
    (∀ n ∈ q.skip, n.Writable v .expression) ∧ ∀ n ∈ q.take, n.Writable v .expression := by
  simp only [Select.written_iff, RowsWritten, and_assoc]

variable (free : v.lost = none)

include free

theorem writable_written (written : r ≠ .unwritten) :
    (Node.select q).Writable v r ↔ q.Written v := by
  rw [Node.writable_select written]
  exact and_iff_right (by simp [Draft.shows, free])

theorem writable_columnsFrom (label : String) (columns : List (Binding Node)) :
    ∀ b ∈ columnsFrom label columns, b.expr.Writable v b.role := by
  refine List.forall_mem_map.mpr fun b _ => ?_
  unfold Binding.role
  split
  · exact Node.writable_unwritten free _
  · exact writable_column free _

omit free in
theorem unpaged_written (label : String) : (unpaged q label q.columns).Written v ↔ RowsWritten v q := by
  rw [written_rows]
  simp [RowsWritten, unpaged]

theorem overDistinct_rows : RowsWritten v (overDistinct q) ↔ RowsWritten v q := by
  have columns : ∀ b ∈ (overDistinct q).columns, b.expr.Writable v b.role := by
    unfold overDistinct
    dsimp only
    split
    · exact fun _ member => absurd member List.not_mem_nil
    · exact writable_columnsFrom free _ _
  have source : (∀ s ∈ (overDistinct q).source, s.Writable v .source) ↔ RowsWritten v q := by
    rw [← unpaged_written (q.label ++ "_distinct"), ← writable_written free (r := .source) (by simp)]
    simp [overDistinct]
  rw [RowsWritten, source]
  exact ⟨fun parts => parts.2.1, fun rows => ⟨columns, rows, by simp [overDistinct]⟩⟩

theorem overDistinct_order : ∀ o ∈ (overDistinct q).orderBy, o.expr.Writable v .expression := by
  intro o member
  obtain ⟨item, -, found⟩ := List.mem_filterMap.mp member
  obtain ⟨name, -, rfl⟩ := Option.map_eq_some_iff.mp found
  exact writable_column free _

variable (number : v.dialect.calls .rowNumber 0 .int64 = true)

include number

theorem numbered_written (label : String) :
    (numbered q label).Written v ↔ RowsWritten v q ∧ ∀ o ∈ q.orderBy, o.expr.Writable v .expression := by
  have window : (Node.window (.call .rowNumber [] .int64) (windowOrder q)).Writable v .expression ↔
      ∀ o ∈ windowOrder q, o.expr.Writable v .expression := by
    have call : (Node.call .rowNumber [] .int64).Writable v .expression := by
      rw [Node.writable_uniform rfl]
      simpa [Shape.fits, Shape.children] using number
    rw [Node.writable_uniform rfl]
    simp [Shape.fits, Shape.children, Role.within, call]
  have columns : (∀ b ∈ (numbered q label).columns, b.expr.Writable v b.role) ↔
      (∀ b ∈ q.columns, b.expr.Writable v b.role) ∧
        ∀ o ∈ windowOrder q, o.expr.Writable v .expression := by
    -- A wildcard in the place of an empty list is never written as an expression.
    have own : (∀ b ∈ (if q.columns.isEmpty then [Binding.everything] else q.columns),
        b.expr.Writable v b.role) ↔
        ∀ b ∈ q.columns, b.expr.Writable v b.role := by
      split
      · rename_i empty
        rw [List.isEmpty_iff.mp empty, List.forall_mem_singleton]
        exact iff_of_true (Node.writable_unwritten free _) (by simp)
      · rfl
    rw [← window, ← own]
    exact List.forall_mem_append.trans (and_congr_right fun _ => List.forall_mem_singleton)
  rw [written_rows, RowsWritten, columns]
  constructor
  · rintro ⟨⟨⟨columns, order⟩, rest⟩, -⟩
    exact ⟨⟨columns, rest⟩, (writable_windowOrder free columns).mp order⟩
  · rintro ⟨⟨columns, rest⟩, order⟩
    exact ⟨⟨⟨columns, (writable_windowOrder free columns).mpr order⟩, rest⟩, by simp [numbered, unpaged]⟩

theorem window_written (skipped : q.skip = some skip) :
    (window q skip).Written v ↔ RowsWritten v q ∧ (∀ o ∈ q.orderBy, o.expr.Writable v .expression) ∧
      (∀ n ∈ q.skip, n.Writable v .expression) ∧ ∀ n ∈ q.take, n.Writable v .expression := by
  have column (c : Column) := writable_column (v := v) free c
  -- What the page selects are references of its own, so they say nothing about what the select holds.
  have columns : ∀ b ∈ (window q skip).columns, b.expr.Writable v b.role := by
    unfold window
    dsimp only
    split
    · exact fun _ member => absurd member List.not_mem_nil
    · exact writable_columnsFrom free _ _
  have source : (∀ s ∈ (window q skip).source, s.Writable v .source) ↔
      RowsWritten v q ∧ ∀ o ∈ q.orderBy, o.expr.Writable v .expression := by
    rw [← numbered_written free number (q.label ++ "_inner"), ← writable_written free (r := .source) (by simp)]
    simp [window]
  have filter : (∀ f ∈ (window q skip).filter, f.Writable v .expression) ↔
      (∀ n ∈ q.skip, n.Writable v .expression) ∧ ∀ n ∈ q.take, n.Writable v .expression := by
    rw [skipped]
    unfold window
    cases q.take <;> simp [Node.both, Node.ofBinary, Node.writable_binary, writable_upperBound, column]
  have order : ∀ o ∈ (window q skip).orderBy, o.expr.Writable v (v.order (window q skip)) := by
    have own : v.order (window q skip) = .expression := by simp [Draft.order, window]
    rw [own]
    exact List.forall_mem_singleton.mpr (column _)
  rw [written_rows, RowsWritten, source, filter]
  constructor
  · rintro ⟨⟨-, ⟨rows, order⟩, limits, -⟩, -⟩
    exact ⟨rows, order, limits⟩
  · rintro ⟨rows, ordered, limits⟩
    exact ⟨⟨columns, ⟨rows, ordered⟩, limits, by simp [window]⟩, order, by simp [window]⟩

theorem paginate_written (skipped : q.skip = some skip) :
    (paginate q skip).Written v ↔ ∀ x ∈ q.roles { v with paged := true }, x.2.Writable v x.1 := by
  rw [Select.forall_roles (P := fun r (n : Node) => n.Writable v r)]
  unfold paginate
  split
  · rename_i distinct
    have order : ({ v with paged := true } : Draft).order q = .unwritten := by simp [Draft.order, distinct, skipped]
    have unwritten : ∀ o ∈ q.orderBy, o.expr.Writable v .unwritten := fun o _ => Node.writable_unwritten free _
    rw [window_written free number (q := overDistinct q) skipped, order, overDistinct_rows free,
      and_iff_right (overDistinct_order free), and_iff_right unwritten, RowsWritten]
    simp only [and_assoc, overDistinct]
  · rename_i all
    have order : ({ v with paged := true } : Draft).order q = .expression := by simp [Draft.order, all]
    rw [window_written free number skipped, order, RowsWritten]
    simp only [and_assoc]

/-- Paging by row numbers leaves out nothing but the order of a distinct select. -/
theorem rowNumbers_writable : (rowNumbers.amend n).Writable v r ↔ n.Writable { v with paged := true } r := by
  simp only [rowNumbers]
  refine Node.mapUp_writable (fun s r => ?_) n r
  -- What is not written can hold anything on both sides.
  by_cases written : r = .unwritten
  · subst written
    rw [Shape.roles_unwritten (v := { v with paged := true }) free, List.forall_mem_map]
    exact iff_of_true (Node.writable_unwritten free _) ⟨rfl, fun c _ => Node.writable_unwritten free c⟩
  have same (kept : s.roles { v with paged := true } r = s.roles v r) : (Node.mk s).Writable v r ↔
      s.fits { v with paged := true } r = true ∧ ∀ x ∈ s.roles { v with paged := true } r, x.2.Writable v x.1 := by
    rw [kept]
    exact Node.writable_mk
  cases s with
  | select q =>
    dsimp only
    split
    · rename_i skip skipped
      have fits : (Shape.select q).fits { v with paged := true } r = true := by
        cases r <;> first | rfl | simp [Shape.fits, Draft.shows, free]
      rw [Shape.roles_select written, and_iff_right fits, writable_written free written,
        paginate_written free number skipped]
    · rename_i unskipped
      refine same ?_
      rw [Shape.roles_select written, Shape.roles_select written]
      simp [Select.roles, Draft.order, unskipped]
  | _ => exact same rfl

end RowNumbers

/-! ### Bits -/

section Bits

/-- Only expressions are at the positions of tests. -/
def Suited (r : Role) (position : Position) : Prop := r = .source ∨ r = .query → position = .value

theorem suited_value (r : Role) : Suited r .value := fun _ => rfl

theorem suited_expression (position : Position) : Suited .expression position := by simp [Suited]

theorem retyped_writable {before after : Shape Node} :
    (retyped before after).Writable v r ↔ (Node.mk after).Writable v r := by
  unfold retyped
  split
  · split
    · rfl
    · rw [Node.negation, Node.ofUnary, Node.writable_uniform rfl, Node.writable_uniform rfl]
      cases r <;> rfl
  · rfl

theorem positioned_fits {α : Type} (s : Shape (Position → α)) (r : Role) : (positioned s).fits v r = s.fits v r := by
  cases r <;> cases s <;> simp [positioned, Shape.fits, Shape.map, Select.map]

variable (free : v.lost = none)

include free

theorem atPosition_writable {position : Position} (suited : Suited r position) :
    (atPosition position n).Writable v r ↔ n.Writable v r := by
  by_cases unwritten : r = .unwritten
  · subst unwritten
    exact iff_of_true (Node.writable_unwritten free _) (Node.writable_unwritten free _)
  have literal (b : Bool) : (Node.literal (.bool b)).Writable v .expression := Node.writable_constant _ _
  cases position with
  | predicate =>
    obtain rfl : r = .expression := by cases r <;> first | rfl | exact absurd rfl unwritten | cases suited (by simp)
    unfold atPosition
    dsimp only
    split
    · rw [Node.equal, Node.ofBinary, Node.writable_binary]
      exact and_iff_left (literal true)
    · rfl
  | value =>
    unfold atPosition
    dsimp only
    split
    · rename_i predicate
      rw [asValue, Node.writable_uniform rfl]
      cases r with
      | unwritten => exact absurd rfl unwritten
      | expression => simp [Shape.fits, Shape.children, Branch.children, Role.within, literal]
      | source | query =>
        -- Neither a test nor its value is a source or a query.
        obtain ⟨s⟩ := n
        rw [Node.writable_mk]
        cases s <;> first | cases predicate | simp [Shape.fits]
    · rfl

/-- A layer whose children have taken their positions can be written where it could before. -/
theorem positioned_writable {s : Shape Node} {f : Node → Position → Node}
    (each : ∀ c ∈ s.children, ∀ r position, Suited r position → ((f c position).Writable v r ↔ c.Writable v r)) :
    (Node.mk (positioned (s.map f))).Writable v r ↔ (Node.mk s).Writable v r := by
  by_cases unwritten : r = .unwritten
  · subst unwritten
    exact iff_of_true (Node.writable_unwritten free _) (Node.writable_unwritten free _)
  have value {c : Node} (child : c ∈ s.children) (r : Role) := each c child r .value (suited_value r)
  have test {c : Node} (child : c ∈ s.children) := each c child .expression .predicate (suited_expression _)
  -- In a uniform layer every child has one role, and only its position tells tests from values.
  by_cases uniform : s.isUniform = true
  · have kept : (positioned (s.map f)).isUniform = true := by cases s <;> first | rfl | cases uniform
    have expression : r.within .expression = .expression := by cases r <;> first | rfl | exact absurd rfl unwritten
    have split (t : Shape Node) : (∀ c ∈ t.children, c.Writable v .expression) ↔
        (∀ c ∈ t.tests, c.Writable v .expression) ∧ ∀ c ∈ t.values, c.Writable v .expression := by
      simp only [Shape.mem_children_iff, or_imp, forall_and]
    rw [Node.writable_uniform kept, Node.writable_uniform uniform, positioned_fits, Shape.fits_map, expression, split,
      split, positioned_tests, positioned_values, Shape.tests_map, Shape.values_map, List.map_map, List.map_map,
      List.forall_mem_map, List.forall_mem_map]
    exact and_congr_right fun _ => and_congr
      (forall₂_congr fun c inside => test (Shape.mem_children_iff.mpr (.inl inside)))
      (forall₂_congr fun c inside => value (Shape.mem_children_iff.mpr (.inr inside)) _)
  · have plain (positions : positioned (s.map f) = s.map fun c => f c .value) :
        (Node.mk (positioned (s.map f))).Writable v r ↔ (Node.mk s).Writable v r := by
      rw [positions, Node.writable_mk, Node.writable_mk, Shape.fits_map, Shape.roles_map, List.forall_mem_map]
      exact and_congr_right fun _ => forall₂_congr fun x member => value (Shape.roles_child member) x.1
    cases s with
    | select q =>
      have positions : positioned ((Shape.select q).map f) = .select { q.map fun c => f c .value with
          filter := q.filter.map fun c => f c .predicate } := by
        simp [positioned, Shape.map, Select.map, Function.comp_def, Binding.map, OrderItem.map]
      have order :
          v.order { q.map (fun c => f c .value) with filter := q.filter.map fun c => f c .predicate } = v.order q := by
        simp [Draft.order, Select.map]
      rw [positions]
      refine (writable_written free unwritten).trans (Iff.trans ?_ (writable_written free unwritten).symm)
      rw [Select.written_iff, Select.written_iff, order]
      have option (o : Option Node) (g : Node → Node) (P : Node → Prop) : (∀ c ∈ o.map g, P c) ↔ ∀ c ∈ o, P (g c) := by
        cases o <;> simp
      simp only [Select.map, List.forall_mem_map, option]
      refine and_congr (forall₂_congr fun b member => value (Select.column_child member) _) <|
        and_congr (forall₂_congr fun c member => value (Select.source_child member) _) <|
        and_congr (forall₂_congr fun c member => test (Select.filter_child member)) <|
        and_congr (forall₂_congr fun c member => value (Select.group_child member) _) <|
        and_congr (forall₂_congr fun o member => value (Select.order_child member) _) <|
        and_congr (forall₂_congr fun c member => value (Select.clause_child ?_) _)
          (forall₂_congr fun c member => value (Select.clause_child ?_) _)
      · simp_all [Select.clauses]
      · simp_all [Select.clauses]
    | join kind left right condition =>
      have expression : r.within .expression = .expression := by cases r <;> first | rfl | exact absurd rfl unwritten
      have first := value (c := left) (by simp [Shape.children]) (r.within .source)
      have second := value (c := right) (by simp [Shape.children]) (r.within .source)
      rw [Node.writable_mk, Node.writable_mk, positioned_fits, Shape.fits_map]
      cases condition with
      | none => simp [Shape.roles, positioned, Shape.map, first, second]
      | some c =>
        have tested := test (c := c) (by simp [Shape.children])
        simp [Shape.roles, positioned, Shape.map, first, second, tested, expression]
    | groupAggregate => exact plain rfl
    | subquery => exact plain (by simp [positioned, Shape.map, Function.comp_def])
    | _ => exact absurd rfl uniform

theorem normalizeBits_writable {position : Position} (suited : Suited r position) :
    (normalizeBits n position).Writable v r ↔ n.Writable v r := by
  induction n using Node.inductNode generalizing r position with
  | step s ih =>
    rw [normalizeBits_mk, atPosition_writable free suited, retyped_writable]
    exact positioned_writable free fun c child r position suited => ih c child suited

end Bits

end Amend

/-! ### Parts of queries -/

namespace Amend

variable {n : Node}

/-- Makes no statement of anything else. -/
def KeepsParts (a : Amender) : Prop := ∀ n : Node, n.isPart = true → (a.amend n).isPart = true

theorem mapUp_keepsParts {name : String} {rule : Node → Node}
    (still : ∀ s : Shape Node, (Node.mk s).isPart = true → (rule (.mk s)).isPart = true) :
    KeepsParts { name, amend := Node.mapUp rule } := by
  rintro ⟨s⟩ part
  change (Node.mapUp rule (.mk s)).isPart = true
  rw [Node.mapUp_mk]
  exact still _ ((Node.isPart_map _).trans part)

theorem identityBrackets_keepsParts : KeepsParts identityBrackets :=
  mapUp_keepsParts fun s part => by cases s <;> first | exact part | cases part

theorem uniqueIndexes_keepsParts : KeepsParts uniqueIndexes :=
  mapUp_keepsParts fun s part => by cases s <;> first | exact part | cases part

theorem clusteredIndexes_keepsParts : KeepsParts clusteredIndexes :=
  mapUp_keepsParts fun s part => by cases s <;> exact part

theorem enumDefinitions_keepsParts : KeepsParts enumDefinitions := by
  intro n part
  have notDefinition : isEnumDefinition n = false := by
    obtain ⟨s⟩ := n
    cases s <;> first | rfl | cases part
  obtain ⟨s⟩ := n
  simp only [enumDefinitions, notDefinition, Bool.false_eq_true, if_false, Node.mapUp_mk]
  cases s <;> exact part

theorem rowNumbers_keepsParts : KeepsParts rowNumbers := by
  refine mapUp_keepsParts fun s part => ?_
  cases s with
  | select q =>
    dsimp only
    split <;> rfl
  | _ => exact part

theorem bits_keepsParts : KeepsParts bits := by
  rintro ⟨s⟩ part
  change (normalizeBits (.mk s) .value).isPart = true
  rw [normalizeBits_mk]
  have retyped_part {after : Shape Node} (part : (Node.mk after).isPart = true) : (retyped s after).isPart = true := by
    unfold retyped
    split
    · split <;> rfl
    · exact part
  have placed : (Node.mk (positioned (s.map normalizeBits))).isPart = true := by
    cases s <;> first | rfl | cases part
  unfold atPosition
  dsimp only
  split
  · rfl
  · exact retyped_part placed

end Amend

namespace Shipped

/-- What is asked of a tree that is to be amended before it is written. -/
def draft (d : Shipped) (eitherForm : Bool) : Draft :=
  { d.dialect.draft eitherForm with paged := d.dialect.limitStyle = .rowNumber }

open Amend in
theorem amend_isPart (d : Shipped) {n : Node} (part : n.isPart = true) : (d.dialect.amend n).isPart = true := by
  have each : ∀ a ∈ d.dialect.amenders, KeepsParts a := by
    cases d with
    | postgres => exact fun _ member => absurd member List.not_mem_nil
    | sqlite => exact List.forall_mem_singleton.mpr enumDefinitions_keepsParts
    | sqlServer paging =>
      refine List.forall_mem_append.mpr ⟨?_, ?_⟩
      · split
        · exact List.forall_mem_singleton.mpr rowNumbers_keepsParts
        · exact fun _ member => absurd member List.not_mem_nil
      · simpa only [List.forall_mem_cons] using ⟨bits_keepsParts, identityBrackets_keepsParts, uniqueIndexes_keepsParts,
          clusteredIndexes_keepsParts, enumDefinitions_keepsParts, fun _ member => absurd member List.not_mem_nil⟩
  exact List.foldlRecOn (motive := fun n => n.isPart = true) _ _ part fun n part a member => each a member n part

open Amend in
/-- Amending a tree decides nothing about whether it can be written. -/
theorem amend_writable (d : Shipped) (eitherForm : Bool) (n : Node) :
    (d.dialect.amend n).Writable (d.dialect.draft eitherForm) .expression ↔
      n.Writable (d.draft eitherForm) .expression := by
  cases d with
  | postgres => rfl
  | sqlite => exact enumDefinitions_writable rfl
  | sqlServer paging =>
    have statements (m : Node) : (enumDefinitions.amend (clusteredIndexes.amend (uniqueIndexes.amend
        (identityBrackets.amend m)))).Writable ((Dialect.sqlServer paging).draft eitherForm) .expression ↔
        m.Writable ((Dialect.sqlServer paging).draft eitherForm) .expression :=
      (enumDefinitions_writable rfl).trans <| (clusteredIndexes_writable rfl).trans <|
        (uniqueIndexes_writable rfl).trans <| identityBrackets_writable rfl
    have bits (m : Node) := normalizeBits_writable (v := (Dialect.sqlServer paging).draft eitherForm) (n := m) rfl
      (suited_value .expression)
    cases paging with
    | rowNumber => exact (statements _).trans ((bits _).trans (rowNumbers_writable rfl rfl))
    | offsetFetch => exact (statements _).trans (bits _)

end Shipped

end QueryTree
