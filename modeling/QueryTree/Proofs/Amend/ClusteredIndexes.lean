import QueryTree.Proofs.Amend.Batches

/-! One clustered index for each table of a batch.

Where a batch creates a clustered index on a table, the primary key of the table should yield. A key yields to the
indexes of the innermost list that its statement stands in, and it does not show in the text of a batch which list that
is. So all keys of a batch yield that should if each definition stands in one list with the index, and the key of a
definition in another list stays clustered beside the index.
-/

set_option autoImplicit false

namespace QueryTree

open Amend

/-- The tables on which statements create clustered indexes. -/
def Amend.clusteredTables (run : List Node) : List String := run.filterMap clusteredTable?

namespace Node

/-- The statements of nested lists in order, each with the tables that its own list creates clustered indexes on. What
is no list has the tables that it is given. -/
def located : Node → List String → List (List String × Node) := para fun
  | .statements list => fun _ => list.flatMap fun m => m.2 (clusteredTables (list.map Prod.fst))
  | s => fun tables => [(tables, .mk (s.map Prod.fst))]

variable {n : Node} {tables : List String}

theorem located_statements (list : List Node) (tables : List String) :
    (statements list).located tables = list.flatMap fun m => m.located (clusteredTables list) := by
  rw [located, para_mk]
  simp [Shape.map, List.flatMap_map, Function.comp_def]

theorem located_single {s : Shape Node} (single : s.kind ≠ .statements) (tables : List String) :
    (mk s).located tables = [(tables, mk s)] := by
  rw [located, para_mk]
  cases s with
  | statements list => exact absurd rfl single
  | _ => exact congrArg (fun t => [(tables, mk t)]) (by rw [Shape.map_map, Shape.map_id])

theorem located_sequence (n : Node) (tables : List String) : (n.located tables).map Prod.snd = n.sequence := by
  induction n using inductNode generalizing tables with
  | step s ih =>
    by_cases single : s.kind = .statements
    · cases s with
      | statements list =>
        rw [located_statements, sequence_statements, List.map_flatMap]
        apply List.flatMap_congr
        intro m listed
        exact ih m listed _
      | _ => cases single
    · rw [located_single single, sequence_single single]
      rfl

end Node

namespace Amend

open Node (sequence sequence_statements sequence_single located located_statements located_single located_sequence)

variable {n : Node} {s : Shape Node} {tables : List String}

/-! ### Lists -/

/-- What becomes of one layer, what it has below being amended. -/
def yieldListed : Node → Node
  | .statements list => .statements (list.map (yieldKey (clusteredTables list)))
  | n => n

theorem clusteredIndexes_amend : clusteredIndexes.amend = Node.mapUp yieldListed := by
  simp only [clusteredIndexes]
  apply congrArg
  funext n
  obtain ⟨s⟩ := n
  cases s <;> rfl

theorem amend_clusteredTable (n : Node) : clusteredTable? (clusteredIndexes.amend n) = clusteredTable? n := by
  rw [clusteredIndexes_amend]
  apply And.right
  apply tables_mapUp
  all_goals
    rintro ⟨s⟩
    cases s <;> rfl

theorem clusteredIndexes_statements (list : List Node) : clusteredIndexes.amend (.statements list) =
    .statements (list.map fun m => yieldKey (clusteredTables list) (clusteredIndexes.amend m)) := by
  have same : clusteredTables (list.map clusteredIndexes.amend) = clusteredTables list :=
    filterMap_clusteredTable amend_clusteredTable list
  rw [clusteredIndexes_amend] at same ⊢
  rw [Node.mapUp_mk]
  change Node.statements ((list.map (Node.mapUp yieldListed)).map
    (yieldKey (clusteredTables (list.map (Node.mapUp yieldListed))))) = _
  rw [same, List.map_map]
  rfl

theorem clusteredIndexes_single (single : s.kind ≠ .statements)
    (without : ∀ c ∈ s.children, c.isStatementless = true) : clusteredIndexes.amend (.mk s) = .mk s := by
  have still (t : Shape Node) (other : t.kind ≠ .statements) : yieldListed (.mk t) = .mk t := by
    cases t <;> first | rfl | exact absurd rfl other
  have below : s.map (Node.mapUp yieldListed) = s := by
    apply Shape.map_still
    intro c child
    apply Node.mapUp_statementless _ (without c child)
    intro t other
    apply still
    rintro listed
    rw [listed] at other
    cases other
  rw [clusteredIndexes_amend, Node.mapUp_mk, below]
  exact still s single

theorem yieldKey_kind (tables : List String) (m : Node) : (yieldKey tables m).kind = m.kind := by
  apply yieldKey_holds (P := fun k => k.kind = m.kind) _ rfl
  apply Node.mapUp_outermost
  · intro s f
    cases s <;> rfl
  · rintro ⟨s⟩
    cases s with
    | constraint name kind => cases kind <;> rfl
    | _ => rfl

theorem yieldKey_single (single : s.kind ≠ .statements) (tables : List String) :
    (yieldKey tables (.mk s)).sequence = [yieldKey tables (.mk s)] := by
  have kind := yieldKey_kind tables (.mk s)
  cases same : yieldKey tables (.mk s) with
  | mk t =>
    rw [same] at kind
    apply sequence_single
    intro listed
    exact single (kind.symm.trans listed)

/-! ### Batches -/

theorem listed_isBatch {list : List Node} {m : Node} (batch : (Node.statements list).IsBatch) (listed : m ∈ list) :
    m.IsBatch := by
  intro s member
  apply batch
  rw [sequence_statements]
  exact List.mem_flatMap_of_mem listed member

theorem yieldKey_sequence (batch : n.IsBatch) (tables : List String) :
    (yieldKey tables (clusteredIndexes.amend n)).sequence = (n.located tables).map fun p => yieldKey p.1 p.2 := by
  induction n using Node.inductNode generalizing tables with
  | step s ih =>
    by_cases single : s.kind = .statements
    · cases s with
      | statements list =>
        change (yieldKey tables (clusteredIndexes.amend (.statements list))).sequence = _
        rw [clusteredIndexes_statements, located_statements, List.map_flatMap]
        -- A list defines no table, so nothing becomes of it but of what it lists.
        change (Node.statements _).sequence = _
        rw [sequence_statements, List.flatMap_map]
        apply List.flatMap_congr
        intro m listed
        exact ih m listed (listed_isBatch batch listed) _
      | _ => cases single
    · have itself : Node.mk s ∈ (Node.mk s).sequence := by
        rw [sequence_single single]
        exact List.mem_singleton_self _
      have without : ∀ c ∈ s.children, c.isStatementless = true := batch (.mk s) itself
      rw [clusteredIndexes_single single without, yieldKey_single single, located_single single]
      rfl

theorem yieldKey_none (m : Node) : yieldKey [] m = m := by
  unfold yieldKey
  cases definedTable? m <;> rfl

theorem clusteredIndexes_sequence (batch : n.IsBatch) :
    (clusteredIndexes.amend n).sequence = (n.located []).map fun p => yieldKey p.1 p.2 := by
  rw [← yieldKey_sequence batch, yieldKey_none]

theorem clusteredTables_listed {list : List Node} {owner : String} (creates : owner ∈ clusteredTables list) :
    owner ∈ clusteredTables (list.flatMap sequence) := by
  obtain ⟨⟨s⟩, listed, creates⟩ := List.mem_filterMap.mp creates
  have single : s.kind ≠ .statements := by
    intro nested
    cases s with
    | statements => cases creates
    | _ => cases nested
  apply List.mem_filterMap.mpr
  refine ⟨.mk s, List.mem_flatMap_of_mem listed ?_, creates⟩
  rw [sequence_single single]
  exact List.mem_singleton_self _

theorem located_tables {p : List String × Node} {owner : String} (member : p ∈ n.located tables) (here : owner ∈ p.1) :
    owner ∈ tables ∨ owner ∈ clusteredTables n.sequence := by
  induction n using Node.inductNode generalizing tables with
  | step s ih =>
    by_cases single : s.kind = .statements
    · cases s with
      | statements list =>
        change p ∈ (Node.statements list).located tables at member
        rw [located_statements] at member
        obtain ⟨m, listed, member⟩ := List.mem_flatMap.mp member
        right
        change owner ∈ clusteredTables (Node.statements list).sequence
        rw [sequence_statements]
        rcases ih m listed member with outer | inner
        · exact clusteredTables_listed outer
        · obtain ⟨index, inside, creates⟩ := List.mem_filterMap.mp inner
          exact List.mem_filterMap.mpr ⟨index, List.mem_flatMap_of_mem listed inside, creates⟩
      | _ => cases single
    · rw [located_single single] at member
      obtain rfl := List.mem_singleton.mp member
      exact .inl here

theorem yieldKey_yielding {m : Node} {owner : String} (defines : definedTable? m = some owner) :
    (yieldKey tables m).every yielding = true ↔ owner ∈ tables ∨ m.every yielding = true := by
  simp only [yieldKey, defines]
  by_cases creates : owner ∈ tables
  · simp [creates, withoutClusteredKey_yielding]
  · simp [creates]

/-- The keys of a batch yield just in case each that was not declared so stands in one list with the index. -/
theorem keysYield_iff (batch : n.IsBatch) : KeysYield (clusteredIndexes.amend n).sequence ↔
    ∀ p ∈ n.located [], ∀ owner, definedTable? p.2 = some owner → owner ∈ clusteredTables n.sequence →
      owner ∈ p.1 ∨ p.2.every yielding = true := by
  -- No key decides what a statement creates, so the indexes are those of the batch as it was.
  have creates : clusteredTables ((n.located []).map fun p => yieldKey p.1 p.2) = clusteredTables n.sequence := by
    rw [← located_sequence n []]
    unfold clusteredTables
    rw [List.filterMap_map, List.filterMap_map]
    exact congrArg (fun look => (n.located []).filterMap look) (funext fun p => (yieldKey_tables p.1 p.2).2)
  unfold KeysYield
  rw [clusteredIndexes_sequence batch]
  change (∀ m ∈ _, ∀ owner, _ → owner ∈ clusteredTables _ → _) ↔ _
  rw [creates, List.forall_mem_map]
  apply forall₂_congr
  intro p _
  apply forall_congr'
  intro owner
  rw [(yieldKey_tables p.1 p.2).1]
  exact forall_congr' fun defines => imp_congr_right fun _ => yieldKey_yielding defines

theorem yieldKey_other {m : Node} (other : ∀ owner, definedTable? m = some owner → owner ∉ tables) :
    yieldKey tables m = m := by
  unfold yieldKey
  cases defines : definedTable? m with
  | none => rfl
  | some owner => exact if_neg (by simpa using other owner defines)

theorem others_kept (batch : n.IsBatch) : List.Forall₂
    (fun before after => (∀ owner, definedTable? before = some owner → owner ∉ clusteredTables n.sequence) →
      after = before) n.sequence (clusteredIndexes.amend n).sequence := by
  rw [clusteredIndexes_sequence batch, ← located_sequence n [], List.forall₂_map_left_iff, List.forall₂_map_right_iff,
    List.forall₂_same]
  intro p member others
  apply yieldKey_other
  intro owner defines here
  rw [located_sequence] at others
  exact others owner defines ((located_tables member here).resolve_left List.not_mem_nil)

/-- Each definition of a table with a clustered index stands in one list with it. -/
def Gathered (n : Node) : Prop :=
  ∀ p ∈ n.located [], ∀ owner, definedTable? p.2 = some owner → owner ∈ clusteredTables n.sequence → owner ∈ p.1

theorem gathered_sequence (batch : n.IsBatch) (gathered : Gathered n) :
    (clusteredIndexes.amend n).sequence = n.sequence.map (yieldKey (clusteredTables n.sequence)) := by
  rw [clusteredIndexes_sequence batch]
  conv_rhs => rw [← located_sequence n [], List.map_map]
  apply List.map_congr_left
  intro p member
  change _ = yieldKey (clusteredTables ((n.located []).map Prod.snd)) p.2
  rw [located_sequence]
  unfold yieldKey
  cases defines : definedTable? p.2 with
  | none => rfl
  | some owner =>
    have same : p.1.contains owner = (clusteredTables n.sequence).contains owner := by
      rw [Bool.eq_iff_iff, List.contains_iff_mem, List.contains_iff_mem]
      constructor
      · exact fun here => (located_tables member here).resolve_left List.not_mem_nil
      · exact gathered p member owner defines
    simp only [same]

theorem gathered_flat {list : List Node} (flat : ∀ m ∈ list, m.kind ≠ .statements) : Gathered (.statements list) := by
  intro p member owner _ creates
  have alone : ∀ m ∈ list, m.sequence = [m] := by
    rintro ⟨s⟩ listed
    exact sequence_single (flat _ listed)
  have same : (Node.statements list).sequence = list := by
    rw [sequence_statements, List.flatMap_congr alone, List.flatMap_singleton']
  rw [located_statements] at member
  obtain ⟨⟨s⟩, listed, member⟩ := List.mem_flatMap.mp member
  have single : s.kind ≠ .statements := flat _ listed
  rw [located_single single] at member
  obtain rfl := List.mem_singleton.mp member
  rwa [same] at creates

/-- The key of a table that is defined in a list of its own stays clustered beside the index, and it does not show in
the text that there was such a list. -/
theorem nested_key_kept :
    let key : Node := .constraint none (.primaryKey ["id"] none)
    let events : Node := .createTable { table := "events", columns := [], constraints := [key] }
    let byTime : Node :=
      .createIndex { name := "events_at", table := "events", columns := [⟨"at", false⟩], clustered := true }
    let batch : Node := .statements [.statements [events], byTime]
    let flat : Node := .statements [events, byTime]
    batch.IsBatch ∧ (∀ d p, (Dialect.spell d batch).statement p = (Dialect.spell d flat).statement p) ∧
      clusteredIndexes.amend batch = batch ∧ ¬KeysYield (clusteredIndexes.amend batch).sequence ∧
      clusteredIndexes.amend flat = .statements [withoutClusteredKey events, byTime] := by
  intro key events byTime batch flat
  have isBatch : batch.IsBatch := by decide +kernel
  have still : clusteredIndexes.amend batch = batch := by decide +kernel
  have same : batch.sequence = [events, byTime] := by decide +kernel
  have clustered : ¬KeysYield batch.sequence := by
    rw [same]
    intro yields
    have key : events.every yielding = true := yields events (by simp) "events" rfl (by simp [byTime, clusteredTable?])
    exact absurd key (by decide +kernel)
  refine ⟨isBatch, fun d p => ?_, still, by rwa [still], by decide +kernel⟩
  have alike : batch.sequence = flat.sequence := by decide +kernel
  rw [d.statement_sequence p rfl, d.statement_sequence p rfl, alike]

end Amend

end QueryTree
