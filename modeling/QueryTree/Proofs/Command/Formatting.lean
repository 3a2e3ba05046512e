import QueryTree.Proofs.Command.Sequences
import QueryTree.Proofs.Command.Visiting
import QueryTree.Proofs.Node.Parts

/-! The text of a command is its wording, with slots numbered from left to right.

The formatter numbers a slot when it comes to it, and knows nothing of where its marker will stand. Layer by layer, the
parts are visited in the order in which their texts are put together, so that the numbers count up from left to right.
Statements without a text are left out of a list only after they have been visited. They have no slots, as long as no
marker is empty.
-/

set_option autoImplicit false

namespace QueryTree

namespace Dialect

open Formatting Visit

/-- Clauses that are there, apart. -/
def clauseTexts (spellings : List (Option Spelling)) (p : Place) : Except CompileError (List Wording) :=
  (spellings.filterMap id).mapM (· p)

section Clauses

variable {d : Dialect} {γ : Type} {answer : List Wording → γ × Formatter} {f : Formatter} {p : Place}
  {l m : List (Option Spelling)} {v : Visit} {s : Spelling} {o : Option Visit} {o' : Option Spelling}

theorem clauseTexts_append : clauseTexts (l ++ m) p = do
    let ws ← clauseTexts l p
    return ws ++ (← clauseTexts m p) := by
  rw [clauseTexts, List.filterMap_append, List.mapM_append]
  rfl

theorem clauseTexts_some (s : Spelling) : clauseTexts (some s :: l) p = do
    let w ← s p
    return w :: (← clauseTexts l p) := by
  show (s :: l.filterMap id).mapM (· p) = _
  rw [List.mapM_cons]
  rfl

/-- Clauses are visited before those behind them. -/
theorem clauses_bind {v : Formatting (List String)} (first : v.WritesAll d (clauseTexts l))
    {k : List String → Formatting γ}
    (rest : ∀ ws, (k (Wording.renders d.marker f.slots.length ws)).run (f.add (ws.flatMap Wording.slots)) =
      (fun vs => answer (ws ++ vs)) <$> clauseTexts m f.place) :
    (v >>= k).run f = answer <$> clauseTexts (l ++ m) f.place := by
  rw [clauseTexts_append]
  refine Numbers.bind first fun ws => (rest ws).trans ?_
  cases clauseTexts m f.place <;> rfl

theorem optional_bind {v : Formatting (List String)} (first : v.WritesAll d (clauseTexts [o']))
    {k : List String → Formatting γ}
    (rest : ∀ ws, (k (Wording.renders d.marker f.slots.length ws)).run (f.add (ws.flatMap Wording.slots)) =
      (fun vs => answer (ws ++ vs)) <$> clauseTexts l f.place) :
    (v >>= k).run f = answer <$> clauseTexts (o' :: l) f.place := clauses_bind (l := [o']) first rest

theorem clause_bind (first : v.Writes d s) {k : String → Formatting γ}
    (rest : ∀ w, (k (w.render d.marker f.slots.length)).run (f.add w.slots) =
      (fun vs => answer (w :: vs)) <$> clauseTexts l f.place) :
    (v >>= k).run f = answer <$> clauseTexts (some s :: l) f.place := by
  rw [clauseTexts_some]
  refine Numbers.bind first fun w => (rest w).trans ?_
  cases clauseTexts l f.place <;> rfl

theorem worded_bind (words : String) (first : v.Writes d s) {k : String → Formatting γ}
    (rest : ∀ w, (k (w.render d.marker f.slots.length)).run (f.add w.slots) =
      (fun vs => answer ((.ofText words ++ w) :: vs)) <$> clauseTexts l f.place) :
    (v >>= k).run f = answer <$> clauseTexts (some (clause words s) :: l) f.place := by
  rw [clauseTexts_some, clause, bind_assoc]
  refine Numbers.bind first fun w => (rest w).trans ?_
  rw [pure_bind]
  cases clauseTexts l f.place <;> rfl

theorem words_bind (words : Option String) {x : Except CompileError (γ × Formatter)}
    (rest : x = (fun vs => answer (words.toList.map .ofText ++ vs)) <$> clauseTexts l p) :
    x = answer <$> clauseTexts (words.map fixed :: l) p := by
  rw [rest]
  cases words with
  | none => rfl
  | some t =>
    show _ = answer <$> clauseTexts (some (fixed t) :: l) p
    rw [clauseTexts_some]
    show _ = answer <$> (do return Wording.ofText t :: (← clauseTexts l p))
    cases clauseTexts l p <;> rfl

theorem clauses_done {c : γ} {f' : Formatter} (same : (c, f') = answer []) :
    (pure c : Formatting γ).run f' = answer <$> clauseTexts [] p := answered same

theorem words_writes (t : String) : WritesAll d (pure [t]) (clauseTexts [some (fixed t)]) := fun f =>
  answered (b := [Wording.ofText t]) (by simp)

theorem writesAll_nil {l : List (Option Spelling)} (nothing : l.filterMap id = []) :
    WritesAll d (pure []) (clauseTexts l) := by
  intro f
  rw [clauseTexts, nothing]
  exact answered (by simp)

theorem part_some (words : String) (writes : v.Writes d s) :
    (part words (some v)).WritesAll d (clauseTexts [some (clause words s)]) := by
  intro f
  rw [clauseTexts_some, clause, bind_assoc]
  exact Numbers.bind writes fun w => answered (b := [.ofText words ++ w]) (by simp)

theorem part_writes (words : String) {o : Option (Visited × Spelled)} {g : Visited → Visit} {h : Spelled → Spelling}
    (each : ∀ c ∈ o, (g c.1).Writes d (h c.2)) : (part words ((o.map Prod.fst).map g)).WritesAll d
      (clauseTexts [(o.map Prod.snd).map fun c => clause words (h c)]) := by
  cases o with
  | none => exact writesAll_nil rfl
  | some c => exact part_some words (each c rfl)

theorem texts_bind {ps : List (Visited × Spelled)} {g : Visited → Visit} {h : Spelled → Spelling}
    (each : ∀ c ∈ ps, (g c.1).Writes d (h c.2)) {k : List String → Formatting γ}
    (rest : ∀ ws, (k (Wording.renders d.marker f.slots.length ws)).run (f.add (ws.flatMap Wording.slots)) =
      pure (answer ws)) :
    ((ps.map Prod.fst).mapM g >>= k).run f = answer <$> clauseTexts ((ps.map Prod.snd).map fun s => some (h s)) f.place := by
  have there : ((ps.map Prod.snd).map fun s => some (h s)).filterMap id = (ps.map Prod.snd).map h := by
    simp [List.filterMap_map]
  rw [clauseTexts, there, List.mapM_map, List.mapM_map, List.mapM_map]
  show _ = answer <$> ps.mapM fun c => h c.2 f.place
  rw [← bind_pure (ps.mapM fun c => h c.2 f.place)]
  exact Numbers.bind (mapM_writes each) rest

theorem clauses_eq (l : List (Option Spelling)) (p : Place) :
    clauses l p = Wording.joined " " <$> clauseTexts l p := by
  show (clauseTexts l p >>= fun ws => pure (Wording.joined " " ws)) = _
  rw [bind_pure_comp]

theorem clauses_writes {v : Visit} {s : Spelling} (same : ∀ p, s p = clauses l p)
    (whole : ∀ f : Formatter, v.run f = (fun ws => (" ".intercalate (Wording.renders d.marker f.slots.length ws),
      f.add (ws.flatMap Wording.slots))) <$> clauseTexts l f.place) : v.Writes d s := by
  intro f
  rw [whole, same, clauses_eq, Functor.map_map]
  simp only [Wording.render_joined, Wording.slots_joined]

end Clauses

/-! ### Queries -/

variable {d : Dialect} {x y : Visited} {x' y' : Spelled} {o : Option (Visited × Spelled)}

theorem suffixed_writes {v : Visit} {s : Spelling} (writes : v.Writes d s) (bare : Bool) (suffix : String) :
    Visit.Writes d (do let text ← v; return if bare then text else text ++ suffix)
      fun p => do let w ← s p; return if bare then w else w ++ .ofText suffix := by
  refine fun f => Numbers.bind writes fun w => ?_
  cases bare with
  | true => exact put rfl rfl
  | false => exact put (by simp) (by simp)

theorem visitColumn_writes {b : Binding (Visited × Spelled)} (writes : b.expr.1.Writes d b.expr.2) :
    (d.visitColumn (b.map Prod.fst)).Writes d (d.projected (b.map Prod.snd)) := by
  obtain ⟨name, ⟨n, _, _, _, _, _, _, _⟩, ⟨n', _, _, _, _, _, _, _⟩⟩ := b
  obtain rfl : n = n' := writes.node
  exact ite_writes (said Node.wildcard) (suffixed_writes writes.expr _ _)

theorem visitColumns_writes {columns : List (Binding (Visited × Spelled))}
    (each : ∀ b ∈ columns, b.expr.1.Writes d b.expr.2) :
    (d.visitColumns (columns.map (·.map Prod.fst))).Writes d
      (if (columns.map (·.map Prod.snd)).isEmpty then fixed Node.wildcard
        else spellList ", " ((columns.map (·.map Prod.snd)).map d.projected)) := by
  cases columns with
  | nil => exact said Node.wildcard
  | cons b rest =>
    show Visit.Writes d (do return ", ".intercalate (← ((b :: rest).map (·.map Prod.fst)).mapM d.visitColumn))
      (spellList ", " (((b :: rest).map (·.map Prod.snd)).map d.projected))
    rw [List.mapM_map, List.map_map]
    exact joined_writes ", " fun c member => visitColumn_writes (each c member)

theorem visitGroupBy_writes {groups : List (Visited × Spelled)} (each : ∀ c ∈ groups, c.1.Writes d c.2) :
    (visitGroupBy (groups.map Prod.fst)).WritesAll d (clauseTexts [if (groups.map Prod.snd).isEmpty then none
      else some (clause "GROUP BY " (exprList (groups.map Prod.snd)))]) := by
  cases groups with
  | nil => exact writesAll_nil rfl
  | cons c rest => exact part_some "GROUP BY " (visitList_writes each)

section Selects

variable {q : Select (Visited × Spelled)} (each : ∀ c ∈ q.children, c.1.Writes d c.2)

include each

theorem visitTop_writes : (d.visitTop (q.map Prod.fst)).Writes d (d.topClause (q.map Prod.snd)) := by
  obtain ⟨-, -, -, -, -, -, take⟩ := Select.forall_children.mp each
  have nothing : Visit.Writes d (pure "") fun _ => pure [] := fun _ => put rfl (by simp [Wording.slots])
  unfold visitTop topClause
  simp only [Select.map]
  cases found : q.take with
  | none => exact nothing
  | some n =>
    cases q.skip with
    | some _ => exact nothing
    | none =>
      simp only [Option.map_some, Option.map_none]
      split
      · exact nothing
      · exact fun f => Numbers.bind (take n found).expr fun w => put (by simp [String.append_assoc]) (by simp)

theorem visitHead_writes : (d.visitHead (q.map Prod.fst)).Writes d (d.selectClause (q.map Prod.snd)) := by
  have top := visitTop_writes each
  have columns : (d.visitColumns (q.map Prod.fst).columns).Writes d
      (if (q.map Prod.snd).columns.isEmpty then fixed Node.wildcard
        else spellList ", " ((q.map Prod.snd).columns.map d.projected)) :=
    visitColumns_writes (Select.forall_children.mp each).1
  -- The row limit stands in front of the columns, and it is visited before them.
  refine fun f => Numbers.bind top fun w => ?_
  dsimp only
  split at columns
  next empty =>
    rw [if_pos empty]
    exact Numbers.bind columns fun v => put (by simp [String.append_assoc]; rfl) (by simp)
  next filled =>
    rw [if_neg filled]
    exact Numbers.bind columns fun v => put (by simp [String.append_assoc]; rfl) (by simp)

theorem visitOrderBy_writes :
    (d.visitOrderBy (q.map Prod.fst)).WritesAll d (clauseTexts [d.orderClause (q.map Prod.snd)]) := by
  obtain ⟨-, -, -, -, orderBy, -, -⟩ := Select.forall_children.mp each
  have skipped : (q.map Prod.fst).skip.isSome = (q.map Prod.snd).skip.isSome := by
    simp only [Select.map, Option.isSome_map]
  have unordered : (q.map Prod.fst).orderBy.isEmpty = (q.map Prod.snd).orderBy.isEmpty := by
    simp only [Select.map, List.isEmpty_map]
  simp only [visitOrderBy, orderClause, skipped, unordered]
  split
  · exact part_some "ORDER BY " (visitOrders_writes orderBy)
  · split
    · exact words_writes "ORDER BY (SELECT NULL)"
    · exact writesAll_nil rfl

theorem visitLimitBefore_writes : (d.visitLimitBefore (q.map Prod.fst)).WritesAll d
    (clauseTexts [match (q.map Prod.snd).take, (q.map Prod.snd).skip, d.unboundedLimit with
      | some take, _, _ => some (clause "LIMIT " take.expr)
      | none, some _, some unbounded => some (fixed ("LIMIT " ++ unbounded))
      | none, _, _ => none]) := by
  obtain ⟨-, -, -, -, -, -, take⟩ := Select.forall_children.mp each
  unfold visitLimitBefore Select.map
  cases found : q.take with
  | some n => exact part_some "LIMIT " (take n found).expr
  | none =>
    cases q.skip with
    | none => exact writesAll_nil rfl
    | some _ =>
      cases d.unboundedLimit with
      | none => exact writesAll_nil rfl
      | some unbounded => exact words_writes ("LIMIT " ++ unbounded)

omit each in
theorem visitFetch_writes {o : Option (Visited × Spelled)} (each : ∀ c ∈ o, c.1.Writes d c.2) :
    (visitFetch (o.map Prod.fst)).WritesAll d (clauseTexts [(o.map Prod.snd).map fun take p => do
      return .ofText "FETCH NEXT " ++ (← take.expr p) ++ .ofText " ROWS ONLY"]) := by
  cases o with
  | none => exact writesAll_nil rfl
  | some take =>
    intro f
    show _ = _ <$> clauseTexts [some _] f.place
    rw [clauseTexts_some, bind_assoc]
    exact Numbers.bind (each take rfl).expr fun w =>
      answered (b := [.ofText "FETCH NEXT " ++ w ++ .ofText " ROWS ONLY"]) (by simp [String.append_assoc])

theorem visitLimit_writes :
    (d.visitLimit (q.map Prod.fst)).WritesAll d (clauseTexts (d.limitClauses (q.map Prod.snd))) := by
  have before := visitLimitBefore_writes each
  obtain ⟨-, -, -, -, -, skip, take⟩ := Select.forall_children.mp each
  have fetch := visitFetch_writes take
  intro f
  unfold visitLimit limitClauses Select.map
  cases d.limitStyle with
  | limitOffset =>
    refine optional_bind before fun limits => ?_
    refine optional_bind (part_writes "OFFSET " fun c member => (skip c member).expr) fun offsets => ?_
    exact clauses_done (by simp)
  | offsetFetch | rowNumber =>
    cases found : q.skip with
    | none => exact writesAll_nil rfl f
    | some n =>
      show _ = _ <$> clauseTexts (some _ :: [_]) f.place
      rw [clauseTexts_some, bind_assoc]
      exact Numbers.bind (skip n found).expr fun w => Numbers.bind fetch fun ws =>
        answered (b := (.ofText "OFFSET " ++ w ++ .ofText " ROWS") :: ws) (by simp [String.append_assoc])

/-- The parts of a query are visited in the order in which they are written. -/
theorem visitSelect_writes : (d.visitSelect (q.map Prod.fst)).Writes d (d.selectText (q.map Prod.snd)) := by
  have head := visitHead_writes each
  have order := visitOrderBy_writes each
  have limit := visitLimit_writes each
  obtain ⟨-, source, filter, groupBy, -, -, -⟩ := Select.forall_children.mp each
  apply within_writes
  refine clauses_writes (fun _ => rfl) fun f => ?_
  simp only [List.cons_append, List.nil_append]
  refine clause_bind head fun w =>
    optional_bind (part_writes "FROM " fun c member => (source c member).source) fun sources =>
    optional_bind (part_writes "WHERE " fun c member => (filter c member).expr) fun filters =>
    optional_bind (visitGroupBy_writes groupBy) fun groups => optional_bind order fun orders =>
    clauses_bind limit fun limits => ?_
  have lock : (if (q.map Prod.snd).forUpdate then d.forUpdate.map fixed else none) =
      (if q.forUpdate then d.forUpdate else none).map fixed := by
    show (if q.forUpdate then _ else _) = _
    split <;> rfl
  rw [lock]
  have words : (if (q.map Prod.fst).forUpdate then d.forUpdate else none) =
      if q.forUpdate then d.forUpdate else none := rfl
  refine words_bind _ (clauses_done ?_)
  rw [words]
  simp [Nat.add_assoc]

end Selects

theorem visitJoin_writes (kind : JoinKind) (left : x.Writes d x') (right : y.Writes d y')
    (each : ∀ c ∈ o, c.1.Writes d c.2) :
    (d.visitJoin kind x y (o.map Prod.fst)).Writes d (d.joinText kind x' y' (o.map Prod.snd)) := by
  intro f
  unfold visitJoin joinText
  cases d.joinKeyword kind with
  | none => rfl
  | some keyword =>
    refine Numbers.bind left.source fun w => Numbers.bind right.source fun v => ?_
    -- Parentheses around a join on the right have no slots and move none.
    have sides (next : Nat) :
        (if y'.node.kind = .join then parenthesize (v.render d.marker next) else v.render d.marker next) =
          (if y'.node.kind = .join then v.parenthesized else v).render d.marker next := by
      split
      · rw [Wording.render_parenthesized]
      · rfl
    have slots : (if y'.node.kind = .join then v.parenthesized else v).slots = v.slots := by
      split
      · exact Wording.slots_parenthesized v
      · rfl
    rw [right.node, sides]
    cases o with
    | some condition =>
      exact Numbers.bind (each condition rfl).expr fun u => put
        (by simp [slots, String.append_assoc, Nat.add_assoc]) (by simp [slots])
    | none =>
      dsimp only [Option.map_none]
      split
      · exact put (by simp [String.append_assoc]) (by simp [slots])
      · exact put (by simp [String.append_assoc]) (by simp [slots])

/-! ### Changes of rows -/

variable {ps : List (Visited × Spelled)}

theorem visitValues_writes (each : ∀ c ∈ ps, c.1.Writes d c.2) :
    (visitValues (ps.map Prod.fst)).Writes d (if (ps.map Prod.snd).isEmpty then fixed "DEFAULT VALUES"
      else fun p => do return .ofText "VALUES " ++ (← exprList (ps.map Prod.snd) p).parenthesized) := by
  cases ps with
  | nil => exact said "DEFAULT VALUES"
  | cons c rest => exact fun f => Numbers.bind (visitList_writes each) fun w => put (by simp) (by simp)

theorem fixed_if (c : Prop) [Decidable c] (t : String) :
    (if c then some (fixed t) else none) = (if c then some t else none).map fixed := by
  split <;> rfl

theorem fixed_unless (c : Prop) [Decidable c] (t : String) :
    (if c then none else some (fixed t)) = (if c then none else some t).map fixed := by
  split <;> rfl

theorem visitInsert_writes {i : Insert (Visited × Spelled)} (each : ∀ c ∈ i.values, c.1.Writes d c.2) :
    (d.visitInsert (i.map Prod.fst)).Writes d (d.insertText (i.map Prod.snd)) := by
  have values := visitValues_writes each
  have counts : ((i.map Prod.fst).columns.length ≠ (i.map Prod.fst).values.length) ↔
      (i.map Prod.snd).columns.length ≠ (i.map Prod.snd).values.length := by
    simp only [Insert.map, List.length_map]
  have message : toString (i.map Prod.fst).values.length = toString (i.map Prod.snd).values.length := by
    simp only [Insert.map, List.length_map]
  unfold visitInsert insertText
  by_cases unequal : (i.map Prod.snd).columns.length ≠ (i.map Prod.snd).values.length
  · rw [if_pos (counts.mpr unequal), message]
    simp only [if_pos unequal]
    exact fails _
  · rw [if_neg (counts.not.mpr unequal)]
    refine clauses_writes (fun p => if_neg unequal) fun f => words_bind (some _) ?_
    rw [fixed_unless, fixed_if, fixed_if]
    refine words_bind _ (words_bind _ (clause_bind values fun w => words_bind _ (clauses_done ?_)))
    simp
    rfl

theorem visitAssignment_writes {b : Binding (Visited × Spelled)} (writes : b.expr.1.Writes d b.expr.2) :
    (d.visitAssignment (b.map Prod.fst)).Writes d (d.assignment (b.map Prod.snd)) :=
  fun _ => Numbers.bind writes.expr fun _ => put (by simp [Binding.map, String.append_assoc]) (by simp)

theorem visitUpdate_writes {u : Update (Visited × Spelled)} (each : ∀ c ∈ u.children, c.1.Writes d c.2) :
    (d.visitUpdate (u.map Prod.fst)).Writes d (d.updateText (u.map Prod.snd)) := by
  simp only [Update.children, List.forall_mem_append, List.forall_mem_map] at each
  obtain ⟨assignments, filter⟩ := each
  have listed : (d.visitAssignments (u.map Prod.fst).assignments).Writes d
      (spellList ", " ((u.map Prod.snd).assignments.map d.assignment)) := by
    simp only [visitAssignments, Update.map]
    rw [List.mapM_map, List.map_map]
    exact joined_writes ", " fun b member => visitAssignment_writes (assignments b member)
  have empty : (u.map Prod.fst).assignments.isEmpty = (u.map Prod.snd).assignments.isEmpty := by
    simp only [Update.map, List.isEmpty_map]
  unfold visitUpdate updateText
  rw [empty]
  split
  · exact fails _
  · refine clauses_writes (fun _ => rfl) fun f => words_bind (some _) (worded_bind "SET " listed fun w => ?_)
    exact optional_bind (part_writes "WHERE " fun c member => (filter c (by simpa using member)).expr) fun filters =>
      clauses_done (by simp; rfl)

theorem visitDelete_writes (owner : String) (label : Option String) (each : ∀ c ∈ o, c.1.Writes d c.2) :
    (d.visitDelete owner label (o.map Prod.fst)).Writes d (d.deleteText owner label (o.map Prod.snd)) := by
  refine clauses_writes (fun _ => rfl) fun f => words_bind (some _) ?_
  exact optional_bind (part_writes "WHERE " fun c member => (each c member).expr) fun filters => clauses_done (by simp)

/-! ### Definitions -/

theorem visitCreateTable_writes {t : CreateTable (Visited × Spelled)}
    (columns : ∀ c ∈ t.columns, c.1.definition.Writes d c.2.definition)
    (constraints : ∀ c ∈ t.constraints, c.1.constraint.Writes d c.2.constraint) :
    (d.visitCreateTable (t.map Prod.fst)).Writes d (d.createTableText (t.map Prod.snd)) := by
  intro f
  unfold visitCreateTable createTableText
  simp only [CreateTable.map, List.mapM_map, spellList, List.mapM_append, bind_assoc, pure_bind]
  refine Numbers.bind (mapM_writes columns) fun ws => Numbers.bind (mapM_writes constraints) fun vs => ?_
  refine put ?_ (by simp [Wording.slots_joined])
  simp only [Wording.render_append, Wording.render_ofText, Wording.render_parenthesized, Wording.render_joined]
  simp [String.append_assoc]
  rfl

theorem visitDefinition_writes (name : String) (type : DataType)
    (each : ∀ c ∈ ps, c.1.constraint.Writes d c.2.constraint) :
    (d.visitDefinition name type (ps.map Prod.fst)).Writes d (d.definitionText name type (ps.map Prod.snd)) := by
  refine fun f => lift_bind fun typeName => clauses_writes (fun _ => rfl) (fun f => words_bind (some _) ?_) f
  exact texts_bind each fun ws => congrArg Except.ok (by simp)

theorem visitConstraintBody_writes {kind : ConstraintKind (Visited × Spelled)}
    (each : ∀ c ∈ kind.children, c.1.Writes d c.2) :
    (d.visitConstraintBody (kind.map Prod.fst)).Writes d (d.constraintBody (kind.map Prod.snd)) := by
  cases kind with
  | primaryKey | unique | foreignKey | notNull | autoIncrement => exact said _
  | default value =>
    exact fun f => Numbers.bind (inlined_writes (each value (List.mem_singleton.mpr rfl)).expr) fun w =>
      put (by simp) (by simp)

theorem visitConstraint_writes (name : Option String) {kind : ConstraintKind (Visited × Spelled)}
    (each : ∀ c ∈ kind.children, c.1.Writes d c.2) :
    (d.visitConstraint name (kind.map Prod.fst)).Writes d (d.constraintText name (kind.map Prod.snd)) := by
  intro f
  cases name with
  | none =>
    exact (Numbers.bind (visitConstraintBody_writes each) fun w => put rfl rfl).trans
      (congrArg _ (bind_pure _))
  | some name =>
    exact Numbers.bind (visitConstraintBody_writes each) fun w => put (by simp [String.append_assoc]) (by simp)

theorem visitAction_writes (change : ConstraintChange) (whole : x.constraint.Writes d x'.constraint)
    (same : x.node = x'.node) : (d.visitAction change x).Writes d (d.actionText change x') := by
  cases change with
  | add => exact fun f => Numbers.bind whole fun w => put (by simp) (by simp)
  | drop =>
    unfold visitAction actionText
    rw [same]
    dsimp only
    cases constraintName? x'.node with
    | some name => exact said _
    | none => exact fails _

theorem visitAlterTable_writes (owner : String) (each : ∀ c ∈ ps, c.1.action.Writes d c.2.action) :
    (d.visitAlterTable owner (ps.map Prod.fst)).Writes d (d.alterTableText owner (ps.map Prod.snd)) := by
  unfold visitAlterTable alterTableText
  rw [List.mapM_map, List.map_map]
  exact joined_writes "; " fun c member f => Numbers.bind (each c member) fun w =>
    put (by simp [String.append_assoc]) (by simp)

theorem visitCreateIndex_writes {i : CreateIndex (Visited × Spelled)} (each : ∀ c ∈ i.filter, c.1.Writes d c.2) :
    (d.visitCreateIndex (i.map Prod.fst)).Writes d (d.createIndexText (i.map Prod.snd)) := by
  refine clauses_writes (fun _ => rfl) fun f => ?_
  refine words_bind _ (words_bind (some _) (words_bind (some _) (words_bind (some _) ?_)))
  have filter : (part "WHERE " ((i.map Prod.fst).filter.map (·.expr.inlined))).WritesAll d
      (clauseTexts [(i.map Prod.snd).filter.map fun filter p => clause "WHERE " filter.expr p.inlined]) :=
    part_writes "WHERE " fun c member => inlined_writes (each c member).expr
  exact optional_bind filter fun filters => clauses_done (by simp; rfl)

theorem visitEnum_writes (name : String) (labels : List String) :
    (d.visitEnum name labels).Writes d (d.enumText name labels) := by
  unfold visitEnum enumText
  split
  · exact said _
  · exact fails _

/-! ### Sessions -/

theorem visitSetArgument_writes (writes : x.Writes d x') : (d.visitSetArgument x).Writes d (d.setArgument x') := by
  unfold visitSetArgument setArgument
  rw [writes.node]
  cases x'.node.constant? with
  | none => exact inlined_writes writes.expr
  | some value =>
    cases value with
    | text name => exact said _
    | bool on => exact said _
    | _ => exact inlined_writes writes.expr

theorem visitSet_writes (name : String) (each : ∀ c ∈ ps, c.1.Writes d c.2) :
    (d.visitSet name (ps.map Prod.fst)).Writes d (d.setText name (ps.map Prod.snd)) := by
  refine clauses_writes (fun _ => rfl) fun f => words_bind (some _) ?_
  exact texts_bind (fun c member => visitSetArgument_writes (each c member)) fun ws => congrArg Except.ok (by simp)

/-! ### Layers -/

theorem unsupported_writes (kind : Kind) : (Visit.unsupported kind).Writes d (QueryTree.unsupported kind) := fails _

section Layers

variable {t : Shape (Visited × Spelled)} (each : ∀ c ∈ t.children, c.1.Writes d c.2)

include each

theorem visitExpr_writes : (d.visitExpr (t.map Prod.fst)).Writes d (d.exprText (t.map Prod.snd)) := by
  cases t with
  | column c => exact said _
  | constant value type => exact visitConstant_writes value type
  | placeholder index type => exact parameter_writes (.placeholder index) type
  | parameter name type => exact parameter_writes (.named name) type
  | binary op left right type =>
    exact visitBinary_writes op (each left (by simp [Shape.children])) (each right (by simp [Shape.children]))
  | unary op operand type => exact visitUnary_writes op (each operand (by simp [Shape.children]))
  | call routine arguments type => exact visitCall_writes routine type each
  | aggregate kind argument distinct type =>
    exact visitAggregate_writes kind distinct fun c member => each c (by simpa [Shape.children] using member)
  | groupAggregate label inGroup asQuery type =>
    exact visitGroupAggregate_writes label (each inGroup (by simp [Shape.children]))
      (each asQuery (by simp [Shape.children]))
  | subquery kind operand query type =>
    exact visitSubquery_writes kind (fun c member => each c (by simp_all [Shape.children]))
      (each query (by simp [Shape.children]))
  | select q => exact fun f => Numbers.bind (visitSelect_writes each) fun w => put (by simp) (by simp)
  | window source orderBy =>
    exact visitOver_writes (each source (by simp [Shape.children])) fun c member =>
      each c.expr (List.mem_cons_of_mem _ (List.mem_map_of_mem member))
  | conditional branches otherwise type =>
    refine visitConditional_writes (fun b member => ?_) fun c member => each c (by simp_all [Shape.children])
    have both : ∀ c ∈ b.children, c.1.Writes d c.2 := fun c inBranch =>
      each c (List.mem_append_left _ (List.mem_flatMap.mpr ⟨b, member, inBranch⟩))
    exact ⟨both _ (by simp [Branch.children]), both _ (by simp [Branch.children])⟩
  | _ => exact unsupported_writes _

theorem visitSource_writes : (d.visitSource (t.map Prod.fst)).Writes d (d.sourceText (t.map Prod.snd)) := by
  cases t with
  | table name label type => exact said _
  | select q =>
    exact fun f => Numbers.bind (visitSelect_writes each) fun w =>
      put (by simp [aliased, String.append_assoc]; rfl) (by simp [aliased])
  | join kind left right condition =>
    exact visitJoin_writes kind (each left (by simp [Shape.children])) (each right (by simp [Shape.children]))
      fun c member => each c (by simp_all [Shape.children])
  | _ => exact unsupported_writes _

theorem visitQuery_writes : (d.visitQuery (t.map Prod.fst)).Writes d (d.queryText (t.map Prod.snd)) := by
  cases t with
  | select q => exact visitSelect_writes each
  | _ => exact unsupported_writes _

theorem visitStatement_writes (single : t.kind ≠ .statements) :
    (d.visitStatement (t.map Prod.fst)).Writes d (d.statementText (t.map Prod.snd)) := by
  cases t with
  | statements list => exact absurd rfl single
  | select q => exact visitSelect_writes each
  | insert i => exact visitInsert_writes each
  | update u => exact visitUpdate_writes each
  | delete owner label filter =>
    exact visitDelete_writes owner label fun c member => each c (by simpa [Shape.children] using member)
  | createTable t =>
    exact visitCreateTable_writes (fun c member => (each c (List.mem_append_left _ member)).definition)
      fun c member => (each c (List.mem_append_right _ member)).constraint
  | alterTable owner actions => exact visitAlterTable_writes owner fun c member => (each c member).action
  | createIndex i => exact visitCreateIndex_writes fun c member => each c (by simpa [Shape.children] using member)
  | enumDefinition name labels => exact visitEnum_writes name labels
  | setCommand name arguments => exact visitSet_writes name each
  | _ => exact visitExpr_writes each

theorem visitLayer_writes : (d.visitLayer (t.map Prod.fst)).Writes d (d.spellLayer (t.map Prod.snd)) where
  node := by
    show Node.mk ((t.map Prod.fst).map (·.node)) = .mk ((t.map Prod.snd).map (·.node))
    rw [Shape.map_map, Shape.map_map, Shape.map_congr fun c member => (each c member).node]
  expr := visitExpr_writes each
  source := visitSource_writes each
  query := visitQuery_writes each
  definition := by
    cases t with
    | columnDefinition name type constraints =>
      exact visitDefinition_writes name type fun c member => (each c member).constraint
    | _ => exact unsupported_writes _
  constraint := by
    cases t with
    | constraint name kind => exact visitConstraint_writes name each
    | _ => exact unsupported_writes _
  action := by
    cases t with
    | constraintAction change target =>
      have target := each target (by simp [Shape.children])
      exact visitAction_writes change target.constraint target.node
    | _ => exact unsupported_writes _

end Layers

/-! ### Statements one behind the other -/

theorem statementTexts_cons (s : String) (l : List String) : statementTexts (s :: l) =
    if s = "" then statementTexts l else if statementTexts l = "" then s else s ++ "; " ++ statementTexts l := by
  -- Texts that are not empty are not joined to an empty one.
  have some (t : String) (rest : List String) (full : t ≠ "") : "; ".intercalate (t :: rest) ≠ "" := by
    cases rest with
    | nil => simpa using full
    | cons u rest =>
      rw [String.intercalate_cons_cons, String.append_assoc]
      exact fun empty => full (String.append_eq_empty_iff.mp empty).1
  by_cases empty : s = ""
  · simp [statementTexts, empty]
  · have kept : statementTexts (s :: l) = "; ".intercalate (s :: l.filter fun s => !s.isEmpty) := by
      simp [statementTexts, empty]
    rw [if_neg empty, kept, statementTexts]
    cases others : l.filter fun s => !s.isEmpty with
    | nil => simp
    | cons u rest =>
      have full : u ≠ "" := by
        have member : u ∈ l.filter fun s => !s.isEmpty := by simp [others]
        simpa using (List.mem_filter.mp member).2
      rw [if_neg (some u rest full), String.intercalate_cons_cons]

theorem statementTexts_singleton (s : String) : statementTexts [s] = s := by
  rw [statementTexts_cons]
  split
  · next empty => rw [empty]; rfl
  · rfl

theorem statementTexts_append (a b : List String) :
    statementTexts (a ++ b) = statementTexts [statementTexts a, statementTexts b] := by
  have pair (s t : String) : statementTexts [s, t] = if s = "" then t else if t = "" then s else s ++ "; " ++ t := by
    rw [statementTexts_cons, statementTexts_singleton]
  induction a with
  | nil =>
    rw [pair]
    rfl
  | cons s a ih =>
    rw [List.cons_append, statementTexts_cons, ih, pair, pair, statementTexts_cons s a]
    by_cases first : s = ""
    · simp [first]
    · by_cases second : statementTexts a = ""
      · simp [first, second]
      · by_cases third : statementTexts b = ""
        · simp [first, second, third]
        · simp [first, second, third, String.append_eq_empty_iff, String.append_assoc]

/-! ### Any tree -/

variable (d : Dialect)

theorem visit_mk (s : Shape Node) : d.visit (.mk s) = d.visitLayer (s.map d.visit) := Node.fold_mk _ _

theorem visit_layer (s : Shape Node) :
    d.visit (.mk s) = d.visitLayer ((s.map fun c => (d.visit c, d.spell c)).map Prod.fst) ∧
    d.spell (.mk s) = d.spellLayer ((s.map fun c => (d.visit c, d.spell c)).map Prod.snd) := by
  rw [visit_mk, spell_mk, Shape.map_map, Shape.map_map]
  exact ⟨rfl, rfl⟩

theorem visit_children {s : Shape Node} (each : ∀ c ∈ s.children, (d.visit c).Writes d (d.spell c)) :
    ∀ c ∈ (s.map fun c => (d.visit c, d.spell c)).children, c.1.Writes d c.2 := by
  rw [Shape.children_map]
  exact List.forall_mem_map.mpr each

/-- Every node is visited as its texts are put together. -/
theorem visit_writes (n : Node) : (d.visit n).Writes d (d.spell n) := by
  induction n using Node.inductNode with
  | step s ih =>
    rw [(d.visit_layer s).1, (d.visit_layer s).2]
    exact visitLayer_writes (d.visit_children ih)

theorem visit_single {n : Node} (single : n.kind ≠ .statements) :
    (d.visit n).statement.Writes d (d.spell n).statement := by
  obtain ⟨s⟩ := n
  rw [(d.visit_layer s).1, (d.visit_layer s).2]
  refine visitStatement_writes (d.visit_children fun c _ => d.visit_writes c) ?_
  rw [Shape.kind_map]
  exact single

/-- Statements in order, each written as it is on its own. -/
def statementsOf (list : List Node) (p : Place) : Except CompileError (List Wording) :=
  list.mapM fun m => (d.spell m).statement p

/-- A visit of a statement or of a list of them writes the statements that have a text. -/
def WritesStatements (v : Visit) (list : List Node) : Prop :=
  Numbers (fun next ws => statementTexts (Wording.renders d.marker next ws)) (·.flatMap Wording.slots) v
    (d.statementsOf list)

theorem visitStatements_writes {list : List Node}
    (each : ∀ m ∈ list, d.WritesStatements (d.visit m).statement m.sequence) :
    d.WritesStatements (visitStatements (list.map d.visit)) (list.flatMap Node.sequence) := by
  induction list with
  | nil => exact fun f => answered (by simp)
  | cons m rest ih =>
    obtain ⟨here, later⟩ := List.forall_mem_cons.mp each
    -- Leaving out blank texts once for all comes to the same as doing so one statement at a time.
    have behind : visitStatements ((m :: rest).map d.visit) = do
        let text ← (d.visit m).statement
        let others ← visitStatements (rest.map d.visit)
        return statementTexts [text, others] := by
      have first (t : String) (ts : List String) : statementTexts (t :: ts) = statementTexts [t, statementTexts ts] := by
        rw [← List.singleton_append, statementTexts_append, statementTexts_singleton]
      simp only [visitStatements, List.map_cons, List.mapM_cons, bind_assoc, pure_bind]
      refine bind_congr fun t => bind_congr fun ts => ?_
      rw [first]
    have sequence (p : Place) : d.statementsOf ((m :: rest).flatMap Node.sequence) p = do
        let ws ← d.statementsOf m.sequence p
        let vs ← d.statementsOf (rest.flatMap Node.sequence) p
        return ws ++ vs := by
      rw [List.flatMap_cons, statementsOf, List.mapM_append]
      rfl
    intro f
    rw [behind, sequence]
    refine Numbers.bind here fun ws => Numbers.bind (ih later) fun vs => answered ?_
    simp only [Wording.renders_append, statementTexts_append, Formatter.add_slots, Formatter.add_add, List.length_append,
      List.flatMap_append]

theorem visit_sequence (n : Node) : d.WritesStatements (d.visit n).statement n.sequence := by
  induction n using Node.inductNode with
  | step s ih =>
    by_cases single : s.kind = .statements
    · cases s with
      | statements list =>
        rw [Node.sequence_statements, visit_mk]
        exact d.visitStatements_writes ih
      | _ => cases single
    · intro f
      rw [d.visit_single (n := .mk s) single f, Node.sequence_single single, statementsOf, List.mapM_cons, List.mapM_nil]
      cases (d.spell (.mk s)).statement f.place with
      | error e => rfl
      | ok w =>
        exact answered (b := [w]) (by simp [statementTexts_singleton])

/-! ### Commands -/

/-- The command of any tree has the wordings of its statements, with their slots numbered from left to right. -/
theorem format_statements (n : Node) : d.format n =
    (fun ws => ⟨statementTexts (Wording.renders d.marker 0 ws), ws.flatMap Wording.slots⟩) <$>
      d.statementsOf n.sequence {} := by
  rw [format, d.visit_sequence n {}]
  show ((fun ws => _) <$> d.statementsOf n.sequence {} >>= _) = _
  cases d.statementsOf n.sequence {} with
  | error e => rfl
  | ok ws =>
    show Except.ok _ = Except.ok _
    simp [Formatter.add]

theorem format_single {n : Node} (single : n.kind ≠ .statements) :
    d.format n = (fun w => ⟨w.render d.marker 0, w.slots⟩) <$> d.wording n := by
  rw [format, d.visit_single single {}]
  show ((fun w => _) <$> d.wording n >>= _) = _
  cases d.wording n with
  | error e => rfl
  | ok w =>
    show Except.ok _ = Except.ok _
    simp [Formatter.add]

end Dialect

/-! ### Texts that are left out -/

namespace Wording

variable {marker : Nat → String}

theorem slots_blank {w : Wording} (blank : w.isBlank = true) : w.slots = [] := by
  refine List.filterMap_eq_nil_iff.mpr fun p member => ?_
  cases p with
  | text s => rfl
  | slot s => exact absurd (List.all_eq_true.mp blank _ member) (by simp [Piece.isBlank])

variable (marked : ∀ k, marker k ≠ "")

include marked

theorem render_isEmpty (next : Nat) (w : Wording) : (w.render marker next).isEmpty = w.isBlank := by
  induction w generalizing next with
  | nil => rfl
  | cons p rest ih =>
    cases p with
    | text s =>
      have later := ih next
      rw [Bool.eq_iff_iff] at later ⊢
      simp only [isBlank, List.all_cons, Piece.isBlank, Bool.and_eq_true, String.isEmpty_iff, render,
        String.append_eq_empty_iff] at later ⊢
      rw [later]
    | slot s =>
      -- A marker is not empty, so a piece that holds a slot cannot vanish.
      have full : marker next ++ render marker (next + 1) rest ≠ "" := fun empty =>
        marked next (String.append_eq_empty_iff.mp empty).1
      simp [isBlank, render, Piece.isBlank, full]

theorem renders_written (next : Nat) (ws : List Wording) :
    (renders marker next ws).filter (fun s => !s.isEmpty) = renders marker next (written ws) := by
  induction ws generalizing next with
  | nil => rfl
  | cons w ws ih =>
    have kept : written (w :: ws) = if !w.isBlank then w :: written ws else written ws := List.filter_cons
    rw [renders_cons, List.filter_cons, render_isEmpty marked, ih, kept]
    cases blank : w.isBlank with
    | true => simp [slots_blank blank]
    | false => simp

omit marked in
theorem slots_written (ws : List Wording) : (written ws).flatMap slots = ws.flatMap slots := by
  induction ws with
  | nil => rfl
  | cons w ws ih =>
    have kept : written (w :: ws) = if !w.isBlank then w :: written ws else written ws := List.filter_cons
    rw [kept]
    cases blank : w.isBlank with
    | true => simpa [slots_blank blank] using ih
    | false => simpa using ih

end Wording

theorem Likeness.InOrder.statements {L : Likeness} {d : Dialect} {m n : Node} (like : L.InOrder d m n) {p : Place}
    (shown : L.shown p) :
    Agree L.error (List.Forall₂ (L.wording false)) (d.statementsOf m.sequence p) (d.statementsOf n.sequence p) := by
  have each := like.each
  unfold Dialect.statementsOf
  generalize m.sequence = first at each
  generalize n.sequence = second at each
  induction each with
  | nil => exact .nil
  | cons here _ ih =>
    simp only [List.mapM_cons]
    exact (here.statement p shown).bind fun _ _ head => ih.bind fun _ _ rest => .cons head rest

namespace Dialect

/-- The command of any tree is its wording, with the slots numbered from left to right. -/
theorem format_rendered {d : Dialect} (marked : ∀ k, d.marker k ≠ "") (n : Node) :
    d.format n = (fun w => ⟨w.render d.marker 0, w.slots⟩) <$> d.wording n := by
  -- A batch drops blank statements by the rendered texts, the wording by its pieces, which agree on what is blank.
  by_cases listed : n.kind = .statements
  · rw [format_statements, wording, d.statement_sequence {} listed]
    show _ = _ <$> (d.statementsOf n.sequence {} >>= _)
    cases d.statementsOf n.sequence {} with
    | error e => rfl
    | ok ws =>
      have text : statementTexts (Wording.renders d.marker 0 ws) =
          (Wording.joined "; " (Wording.written ws)).render d.marker 0 := by
        rw [Wording.render_joined, ← Wording.renders_written marked]
        rfl
      have slots : (Wording.joined "; " (Wording.written ws)).slots = ws.flatMap Wording.slots := by
        rw [Wording.slots_joined, Wording.slots_written]
      show Except.ok (Formatted.mk _ _) = Except.ok (Formatted.mk _ _)
      rw [text, slots]
  · exact d.format_single listed

end Dialect

end QueryTree
