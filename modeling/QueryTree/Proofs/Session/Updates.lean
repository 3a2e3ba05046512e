import Mathlib.Data.List.Nodup
import QueryTree.Proofs.Amend.Settling
import QueryTree.Proofs.Command.SharedText
import QueryTree.Proofs.Session.Commands

/-! What an update changes, and where.

An update gives its values by name, new values by the names of the properties and the key by names with a prefix. As
long as no property that is set has such a name, the parameters are the new values in the order in which they are given,
and after them the key. Without the whole key there is no update.
-/

set_option autoImplicit false

namespace QueryTree

/-! ### Steps that may fail -/

theorem mapM_ok_iff {ε α β : Type} {f : α → Except ε β} {l : List α} {r : List β} :
    l.mapM f = .ok r ↔ List.Forall₂ (fun a b => f a = .ok b) l r := by
  induction l generalizing r with
  | nil => cases r <;> simp [pure, Except.pure]
  | cons a l ih =>
    rw [List.mapM_cons]
    cases first : f a with
    | error e => cases r <;> simp [bind, Except.bind, first]
    | ok b =>
      cases rest : l.mapM f with
      | error e => cases r <;> simp [bind, Except.bind, ← ih, first, rest]
      | ok bs => cases r <;> simp [bind, Except.bind, pure, Except.pure, ← ih, first, rest]

theorem ok_ofBind {ε σ α β : Type} {x : ExceptT ε (StateM σ) α} {f : α → ExceptT ε (StateM σ) β} {s : σ} {b : β}
    (returned : ((x >>= f).run s).1 = .ok b) :
    ∃ a, (x.run s).1 = .ok a ∧ ((f a).run (x.run s).2).1 = .ok b := by
  have run : (x >>= f).run s = match x.run s with
      | (.ok a, t) => (f a).run t
      | (.error e, t) => (.error e, t) := by
    change ExceptT.bindCont f (x s).1 (x s).2 = _
    change _ = match x s with
      | (.ok a, t) => (f a).run t
      | (.error e, t) => (.error e, t)
    rcases x s with ⟨_ | _, _⟩ <;> rfl
  rw [run] at returned
  generalize x.run s = first at returned ⊢
  obtain ⟨e | a, t⟩ := first
  · cases returned
  · exact ⟨a, rfl, returned⟩

/-! ### Values by name -/

namespace Named

variable {named : Named} {name other : String} {value : Value}

def give (named : Named) (values : List (String × Value)) : Named :=
  values.foldl (fun named (name, value) => named.insert name value) named

theorem find?_insert :
    (named.insert name value).find? other = if name = other then some value else named.find? other := by
  unfold insert find?
  by_cases same : name = other
  · simp [same]
  · have rest : (named.filter (·.1 != name)).find? (·.1 == other) = List.find? (·.1 == other) named := by
      rw [List.find?_filter]
      refine congrArg (fun look => List.find? look named) (funext fun entry => ?_)
      by_cases found : entry.1 = other
      · simp [found, Ne.symm same]
      · simp [found]
    simp [same, rest]

theorem find?_append (named more : Named) :
    Named.find? (named ++ more) name = (named.find? name).or (more.find? name) := by
  unfold find?
  rw [List.find?_append]
  cases List.find? (·.1 == name) named <;> rfl

theorem find?_give (named : Named) (values : List (String × Value)) :
    (named.give values).find? name = (Named.find? values.reverse name).or (named.find? name) := by
  induction values generalizing named with
  | nil => rfl
  | cons v values ih =>
    have rest : (named.give (v :: values)).find? name = ((named.insert v.1 v.2).give values).find? name := rfl
    rw [rest, ih, find?_insert, List.reverse_cons, find?_append, Option.or_assoc]
    by_cases same : v.1 = name
    · simp [same, find?]
    · simp [same, find?]

theorem find?_member (distinct : (named.map (·.1)).Nodup) {v : String × Value} (member : v ∈ named) :
    named.find? v.1 = some v.2 := by
  induction named with
  | nil => cases member
  | cons first named ih =>
    obtain ⟨fresh, distinct⟩ := List.nodup_cons.mp distinct
    rcases List.mem_cons.mp member with rfl | later
    · simp [find?]
    · have other : first.1 ≠ v.1 := fun same => fresh (List.mem_map.mpr ⟨v, later, same.symm⟩)
      have rest := ih distinct later
      unfold find? at rest ⊢
      rwa [List.find?_cons_of_neg (by simpa using other)]

theorem find?_none (absent : name ∉ named.map (·.1)) : named.find? name = none := by
  unfold find?
  rw [Option.map_eq_none_iff, List.find?_eq_none]
  intro v member found
  exact absent (List.mem_map.mpr ⟨v, member, eq_of_beq found⟩)

end Named

/-! ### Properties -/

namespace Property

theorem keyName_inj {p q : Property} : p.keyName = q.keyName ↔ p.name = q.name := by
  constructor
  · intro same
    have chars := congrArg String.toList same
    simp only [keyName, String.toList_append] at chars
    exact String.toList_inj.mp (List.append_cancel_left chars)
  · intro same
    rw [keyName, keyName, same]

end Property

namespace Entity

variable {e : Entity}

theorem find_named {name : String} {p : Property} (found : e.find name = .ok p) : p.name = name := by
  unfold find property? at found
  split at found
  next q listed =>
    obtain rfl := Except.ok.inj found
    simpa using List.find?_some listed
  next => cases found

/-- What the filter finds under the name of a key property is the value given for the property. -/
theorem keyValues_find {key : List (String × Value)} {named : Named} (given : e.keyValues key = .ok named)
    (p : Property) : named.find? p.keyName = Named.find? key.reverse p.name := by
  -- The values go into what was given before them, so the induction is over any start.
  have run : ∀ (key : List (String × Value)) (start : Named), key.foldlM (fun named (name, value) => do
      let p ← e.find name
      if p.primaryKey then return named.insert p.keyName value
      else .error (.invalidNode (e.name ++ "." ++ name ++ " is not part of the primary key"))) start = .ok named →
      named.find? p.keyName = (Named.find? key.reverse p.name).or (start.find? p.keyName) := by
    intro key
    induction key with
    | nil =>
      intro start given
      obtain rfl := Except.ok.inj given
      rfl
    | cons v key ih =>
      intro start given
      obtain ⟨name, value⟩ := v
      rw [List.foldlM_cons] at given
      dsimp only at given
      cases found : e.find name with
      | error =>
        rw [found] at given
        cases given
      | ok q =>
        rw [found] at given
        simp only [bind, Except.bind, pure, Except.pure] at given
        by_cases isKey : q.primaryKey = true
        · rw [if_pos isKey] at given
          have last : Named.find? [(name, value)] p.name = if name = p.name then some value else none := by
            by_cases same : name = p.name
            · simp [same, Named.find?]
            · simp [same, Named.find?]
          rw [ih _ given, Named.find?_insert, List.reverse_cons, Named.find?_append, Option.or_assoc, last,
            ← find_named found]
          simp only [Property.keyName_inj]
          split <;> rfl
        · rw [if_neg isKey] at given
          cases given
  simpa [Named.find?] using run key [] given

theorem mapM_names {values : List (String × Value)} {ps : List Property}
    (found : (values.mapM fun v => e.find v.1) = .ok ps) : ps.map (·.name) = values.map (·.1) := by
  have each := mapM_ok_iff.mp found
  clear found
  induction each with
  | nil => rfl
  | cons first _ ih => rw [List.map_cons, List.map_cons, find_named first, ih]

theorem zip_names {values : List (String × Value)} {ps : List Property} (names : ps.map (·.name) = values.map (·.1)) :
    (ps.zip values).map (fun (p, _, value) => (p.name, value)) = values := by
  induction values generalizing ps with
  | nil => simp
  | cons v values ih =>
    cases ps with
    | nil => cases names
    | cons p ps =>
      obtain ⟨same, names⟩ := List.cons.inj names
      rw [List.zip_cons_cons, List.map_cons, ih names]
      exact congrArg (fun name => (name, v.2) :: values) same

theorem assigned_given {named named' : Named} {values : List (String × Value)} {ps : List Property}
    (found : e.assigned named values = .ok (ps, named')) :
    (values.mapM fun v => e.find v.1) = .ok ps ∧ named' = named.give values := by
  change (values.mapM fun v => e.find v.1) >>= _ = Except.ok (ps, named') at found
  cases properties : values.mapM fun v => e.find v.1 with
  | error => rw [properties] at found; cases found
  | ok qs =>
    rw [properties] at found
    obtain ⟨rfl, rfl⟩ := Prod.mk.inj (Except.ok.inj found)
    exact ⟨rfl, congrArg named.give (zip_names (mapM_names properties))⟩

end Entity

/-! ### The text of an update -/

/-- Texts that hold together, each further one in parentheses with what came before. -/
def Wording.conjoined : List Wording → Wording
  | [] => []
  | w :: rest => rest.foldl (fun before w => before.parenthesized ++ ofText " AND " ++ w.parenthesized) w

def namedSlots (name : Property → String) (ps : List Property) : List Slot := ps.map fun p => ⟨.named (name p), p.type⟩

namespace Wording

theorem slots_conjoined (ws : List Wording) : slots (conjoined ws) = ws.flatMap slots := by
  have run (ws : List Wording) (w : Wording) : slots (ws.foldl (fun before w =>
      before.parenthesized ++ ofText " AND " ++ w.parenthesized) w) = slots w ++ ws.flatMap slots := by
    induction ws generalizing w with
    | nil => simp
    | cons v ws ih =>
      rw [List.foldl_cons, ih]
      simp [slots_append, slots_ofText, parenthesized]
  cases ws with
  | nil => rfl
  | cons w ws => exact run ws w

end Wording

namespace Dialect

variable (d : Dialect)

def keyTest (p : Property) : Wording :=
  .ofText (d.columnText ⟨"", p.column, p.type⟩) ++ .ofText " = " ++ slotOf (.named p.keyName) p.type

def setTo (p : Property) : Wording := .ofText (d.quoteIdent p.column ++ " = ") ++ slotOf (.named p.name) p.type

/-- An update of these properties where all of the primary key is as given. -/
def updateWording (e : Entity) (ps : List Property) : Wording :=
  .joined " " [.ofText ("UPDATE " ++ d.quoteIdent e.table), .ofText "SET " ++ .joined ", " (ps.map d.setTo),
    .ofText "WHERE " ++ .conjoined (e.primaryKey.map d.keyTest)]

theorem updateWording_slots (e : Entity) (ps : List Property) : (d.updateWording e ps).slots =
    namedSlots (·.name) ps ++ namedSlots (·.keyName) e.primaryKey := by
  have each (test : Property → Wording) (name : Property → String)
      (one : ∀ p, (test p).slots = [⟨.named (name p), p.type⟩]) (ps : List Property) :
      (ps.map test).flatMap Wording.slots = namedSlots name ps := by
    rw [List.flatMap_map, namedSlots, List.map_eq_flatMap]
    exact congrArg (fun f => List.flatMap f ps) (funext one)
  have sets := each d.setTo (·.name) (fun _ => rfl) ps
  have tests := each d.keyTest (·.keyName) (fun _ => rfl) e.primaryKey
  simp only [updateWording, Wording.slots_joined, List.flatMap_cons, List.flatMap_nil, Wording.slots_append,
    Wording.slots_ofText, Wording.slots_conjoined, sets, tests, List.nil_append, List.append_nil]

theorem spell_matchesKey (place : Place) (p : Property) : (d.spell p.matchesKey).expr place = .ok (d.keyTest p) := rfl

theorem spell_both {a b : Node} (first : d.isOperation a = true) (second : d.isOperation b = true) {place : Place}
    {w v : Wording} (left : (d.spell a).expr place = .ok w) (right : (d.spell b).expr place = .ok v) :
    (d.spell (.both a b)).expr place = .ok (w.parenthesized ++ .ofText " AND " ++ v.parenthesized) := by
  rw [Node.both, Node.ofBinary, spell_mk]
  show d.binaryExpr .and (d.spell a) (d.spell b) place = _
  unfold binaryExpr nullTested operand
  simp only [spell_node, first, second, left, right]
  rfl

theorem spell_conjunction (place : Place) {keys : List Property} {n : Node}
    (joined : Node.conjunction (keys.map Property.matchesKey) = some n) :
    (d.spell n).expr place = .ok (.conjoined (keys.map d.keyTest)) := by
  -- Tests of key columns are operations, so a conjunction of them is parenthesized on both sides.
  have run : ∀ (keys : List Property) (n : Node) (w : Wording), d.isOperation n = true →
      (d.spell n).expr place = .ok w →
      (d.spell ((keys.map Property.matchesKey).foldl .both n)).expr place = .ok ((keys.map d.keyTest).foldl
        (fun before w => before.parenthesized ++ .ofText " AND " ++ w.parenthesized) w) := by
    intro keys
    induction keys with
    | nil => exact fun n w _ spelled => spelled
    | cons p keys ih =>
      intro n w operation spelled
      exact ih _ _ rfl (d.spell_both operation rfl spelled (d.spell_matchesKey place p))
  cases keys with
  | nil => cases joined
  | cons p keys =>
    cases joined
    exact run keys _ _ rfl (d.spell_matchesKey place p)

theorem spellList_ok (separator : String) {place : Place} {spellings : List Spelling} {ws : List Wording}
    (each : List.Forall₂ (fun s w => s place = .ok w) spellings ws) :
    spellList separator spellings place = .ok (.joined separator ws) := by
  rw [spellList, mapM_ok_iff.mpr each]
  rfl

theorem updateNode_wording {e : Entity} {ps : List Property} {n : Node} (node : e.updateNode ps = .ok n)
    (some : ps ≠ []) : d.wording n = .ok (d.updateWording e ps) := by
  unfold Entity.updateNode Entity.keyFilter at node
  split at node
  · rename_i filter joined
    cases node
    have sets : List.Forall₂ (fun s w => s {} = .ok w) (ps.map fun p => d.assignment ⟨p.column, d.spell p.parameter⟩)
        (ps.map d.setTo) :=
      List.forall₂_map_left_iff.mpr (List.forall₂_map_right_iff.mpr (List.forall₂_same.mpr fun p _ => rfl))
    -- All clauses are there, for some properties are set and the key has a test for each column.
    have clauses : List.Forall₂ (fun s w => s {} = .ok w)
        [fixed ("UPDATE " ++ d.quoteIdent e.table),
          clause "SET " (spellList ", " (ps.map fun p => d.assignment ⟨p.column, d.spell p.parameter⟩)),
          clause "WHERE " (d.spell filter).expr]
        [.ofText ("UPDATE " ++ d.quoteIdent e.table), .ofText "SET " ++ .joined ", " (ps.map d.setTo),
          .ofText "WHERE " ++ .conjoined (e.primaryKey.map d.keyTest)] := by
      refine .cons rfl (.cons ?_ (.cons ?_ .nil))
      · rw [clause, spellList_ok ", " sets]
        rfl
      · rw [clause, d.spell_conjunction {} joined]
        rfl
    rw [wording, spell_mk]
    show d.updateText (.map d.spell _) {} = _
    unfold updateText
    rw [if_neg (by simpa [Update.map] using some)]
    refine Eq.trans ?_ (spellList_ok " " clauses)
    simp [Dialect.clauses, Update.map, Binding.map, Function.comp_def]
  · cases node

/-- The command that an update is written as. -/
theorem updateNode_format {e : Entity} {ps : List Property} {n : Node} (node : e.updateNode ps = .ok n) (some : ps ≠ [])
    {f : Formatted} (made : d.format n = .ok f) : f.text = (d.updateWording e ps).render d.marker 0 ∧
      f.slots = namedSlots (·.name) ps ++ namedSlots (·.keyName) e.primaryKey := by
  have single : n.kind ≠ .statements := by
    unfold Entity.updateNode at node
    cases filter : e.keyFilter with
    | error e => rw [filter] at node; cases node
    | ok filter => rw [filter] at node; cases node; exact nofun
  rw [d.format_single single, d.updateNode_wording node some] at made
  obtain rfl := Except.ok.inj made
  exact ⟨rfl, d.updateWording_slots e ps⟩

end Dialect

/-! ### Nothing to amend -/

namespace Amend

/-- A layer of an update that gives no identity value. -/
def ofUpdate : Shape Unit → Bool
  | .update u => !u.identityInsert
  | .binary .. | .column _ | .parameter .. => true
  | _ => false

variable {e : Entity} {ps : List Property} {n : Node}

theorem keyFilter_placed (made : e.keyFilter = .ok n) :
    n.every ofUpdate = true ∧ isBit n = false ∧ n.Placed := by
  unfold Entity.keyFilter at made
  split at made
  · rename_i filter joined
    cases made
    refine Node.joinAll_holds (P := fun n => n.every ofUpdate = true ∧ isBit n = false ∧ n.Placed) ?_ ?_ _ joined
    · rintro a b ⟨first, firstTest, firstPlaced⟩ ⟨second, secondTest, secondPlaced⟩
      refine ⟨Node.every_mk.mpr ⟨rfl, by simp [Shape.children, first, second]⟩, rfl, Node.placed_mk.mpr ?_⟩
      simp [Shape.tests, Shape.values, BinaryOp.isLogical, firstTest, firstPlaced, secondTest, secondPlaced]
    · rw [List.forall_mem_map]
      intro p _
      refine ⟨Node.every_mk.mpr ⟨rfl, ?_⟩, rfl, Node.placed_mk.mpr ?_⟩
      · simp [Shape.children, Node.every_mk, ofUpdate, Shape.bare, Shape.map]
      · simp [Shape.tests, Shape.values, BinaryOp.isLogical, Node.isPredicate, Node.placed_mk, Shape.children]
  · cases made

theorem updateNode_placed (made : e.updateNode ps = .ok n) :
    n.every ofUpdate = true ∧ n.isPredicate = false ∧ n.Placed := by
  unfold Entity.updateNode at made
  cases key : e.keyFilter with
  | error =>
    rw [key] at made
    cases made
  | ok filter =>
    rw [key] at made
    obtain rfl := Except.ok.inj made
    obtain ⟨layers, test, placed⟩ := keyFilter_placed key
    have parameter (p : Property) : p.parameter.every ofUpdate = true ∧ p.parameter.isPredicate = false ∧
        p.parameter.Placed :=
      ⟨Node.every_mk.mpr ⟨rfl, fun _ member => absurd member List.not_mem_nil⟩, rfl,
        Node.placed_mk.mpr (by simp [Shape.children])⟩
    refine ⟨Node.every_mk.mpr ⟨rfl, ?_⟩, rfl, Node.placed_mk.mpr ⟨by simp [Shape.tests, test, placed], ?_⟩⟩
    · simp [Shape.children, Update.children, or_imp, forall_and, layers, parameter]
    · simp [Shape.values, parameter]

end Amend

/-- An update of a row is written as it is, by every dialect. -/
theorem Shipped.amend_updateNode (d : Shipped) {e : Entity} {ps : List Property} {n : Node}
    (made : e.updateNode ps = .ok n) : d.dialect.amend n = n := by
  obtain ⟨layers, value, placed⟩ := Amend.updateNode_placed made
  have skips : n.SkipsNone :=
    Amend.skipless_iff.mp (Node.every_mono (fun s fine => by cases s <;> first | rfl | cases fine) layers)
  refine d.amend_still skips placed value ⟨?_, ?_, ?_, ?_, ?_⟩
  · exact Node.every_mono (fun s fine => by cases s <;> first | rfl | exact fine | cases fine) layers
  · exact Node.every_mono (fun s fine => by cases s <;> first | rfl | exact fine | cases fine) layers
  · exact Node.lists_ofEvery (fun s fine => by cases s <;> simp [Amend.ofUpdate, Shape.kind] at fine ⊢) layers
  · exact Node.lists_ofEvery (fun s fine => by cases s <;> simp [Amend.ofUpdate, Shape.kind] at fine ⊢) layers
  · obtain ⟨s⟩ := n
    have fine := (Node.every_mk.mp layers).1
    cases s <;> first | rfl | cases fine

/-! ### Updates with their values -/

theorem namedSlots_bind {name : Property → String} {named : Named} {ps : List Property} {parameters : List TypedValue}
    (bound : (namedSlots name ps).mapM (Slot.bind [] named) = .ok parameters) :
    parameters.map some = ps.map fun p => (named.find? (name p)).map fun value => ⟨value, p.type⟩ := by
  have each := mapM_ok_iff.mp bound
  rw [namedSlots, List.forall₂_map_left_iff] at each
  clear bound
  induction each with
  | nil => rfl
  | @cons p parameter _ _ first _ ih =>
    have here : (named.find? (name p)).map (fun value => (⟨value, p.type⟩ : TypedValue)) = some parameter := by
      unfold Slot.bind at first
      dsimp only at first
      split at first
      · rename_i found
        rw [found]
        exact congrArg some (Except.ok.inj first)
      · cases first
    rw [List.map_cons, List.map_cons, ih, here]

theorem given_values {named : Named} {ps : List Property} {changed : List (String × Value)}
    (names : ps.map (·.name) = changed.map (·.1)) (distinct : (changed.map (·.1)).Nodup) :
    (ps.map fun p => ((named.give changed).find? p.name).map fun value => (⟨value, p.type⟩ : TypedValue)) =
      (ps.zip changed).map fun (p, _, value) => some ⟨value, p.type⟩ := by
  have found : ∀ v ∈ changed, (named.give changed).find? v.1 = some v.2 := by
    intro v member
    -- Values are looked up from the last given on, and under distinct names that is the only one.
    have last : Named.find? changed.reverse v.1 = some v.2 :=
      Named.find?_member (by rwa [List.map_reverse, List.nodup_reverse]) (List.mem_reverse.mpr member)
    rw [Named.find?_give, last]
    rfl
  generalize named.give changed = given at found
  clear distinct
  induction changed generalizing ps with
  | nil => simp_all
  | cons v changed ih =>
    cases ps with
    | nil => cases names
    | cons p ps =>
      obtain ⟨same, names⟩ := List.cons.inj names
      obtain ⟨here, later⟩ := List.forall_mem_cons.mp found
      have first : given.find? p.name = some v.2 := (congrArg given.find? same).trans here
      rw [List.map_cons, List.zip_cons_cons, List.map_cons, ih names later, first]
      rfl

namespace Dialect

variable {d : Shipped} {entities : String → Entity} {e : Entity} {c : CommandCache}
  {key changed : List (String × Value)}

/-- A command is what its properties are compiled to, be it now or before. -/
theorem compiled_made {d : Dialect} (sound : c.Sound (d.Made entities)) {k : CommandKey}
    {node : Except CompileError Node} (rebuilt : k.node (entities k.entity) = node) {f : Formatted}
    (returned : ((d.compiled k node).run c).1 = .ok f) :
    (node >>= fun n => d.format (d.amend n)) = .ok f := by
  change (Cache.getOrCompile k (fun _ => node >>= fun n => d.format (d.amend n)) c).1 = .ok f at returned
  rcases Cache.getOrCompile_answer sound with now | ⟨l, g, equal, made, kept⟩
  · exact now.symm.trans returned
  · obtain rfl := eq_of_beq equal
    obtain rfl := Except.ok.inj (kept.symm.trans returned)
    rw [Made, rebuilt] at made
    exact made

theorem updateCommand_inv (known : entities e.name = e) (sound : c.Sound (d.dialect.Made entities))
    (given : changed ≠ []) {answer : Option Command}
    (returned : ((d.dialect.updateCommand e key changed).run c).1 = .ok answer) :
    ∃ keys ps named n f command, e.keyValues key = .ok keys ∧ e.assigned keys changed = .ok (ps, named) ∧
      e.updateNode ps = .ok n ∧ d.dialect.format n = .ok f ∧ f.bind [] named = .ok command ∧ answer = some command := by
  unfold updateCommand at returned
  rw [if_neg (by simpa using given)] at returned
  obtain ⟨keys, keyed, returned⟩ := ok_ofBind returned
  obtain ⟨⟨ps, named⟩, assigned, returned⟩ := ok_ofBind returned
  obtain ⟨f, compiled, returned⟩ := ok_ofBind returned
  obtain ⟨command, bound, returned⟩ := ok_ofBind returned
  -- The cache was asked under a key, and what the key stands for is built from the entity of its name.
  have rebuilt : (⟨e.name, .update, ps.map (·.name)⟩ : CommandKey).node (entities e.name) = e.updateNode ps := by
    rw [known, CommandKey.node, Entity.assigned_names assigned]
    rfl
  have made := compiled_made sound rebuilt compiled
  cases node : e.updateNode ps with
  | error =>
    rw [node] at made
    cases made
  | ok n =>
    rw [node] at made
    have format : d.dialect.format n = .ok f := (congrArg d.dialect.format (d.amend_updateNode node)).symm.trans made
    exact ⟨keys, ps, named, n, f, command, keyed, assigned, node, format, bound, (Except.ok.inj returned).symm⟩

/-- An update changes the properties that are set, in their order, where all of the primary key is as given: the
parameters are the new values and after them the key. -/
theorem updateCommand_values (known : entities e.name = e) (sound : c.Sound (d.dialect.Made entities))
    (distinct : (changed.map (·.1)).Nodup) (apart : ∀ p ∈ e.primaryKey, p.keyName ∉ changed.map (·.1))
    {command : Command} (returned : ((d.dialect.updateCommand e key changed).run c).1 = .ok (some command)) :
    ∃ ps, (changed.mapM fun v => e.find v.1) = .ok ps ∧
      command.text = (d.dialect.updateWording e ps).render d.dialect.marker 0 ∧
      command.parameters.map some = ((ps.zip changed).map fun (p, _, value) => some ⟨value, p.type⟩) ++
        e.primaryKey.map fun p => (Named.find? key.reverse p.name).map fun value => ⟨value, p.type⟩ := by
  have given : changed ≠ [] := by
    rintro rfl
    cases returned
  obtain ⟨keys, ps, named, n, f, _, keyed, assigned, node, written, bound, same⟩ :=
    updateCommand_inv known sound given returned
  cases same
  obtain ⟨found, rfl⟩ := Entity.assigned_given assigned
  have names := Entity.mapM_names found
  have nonempty : ps ≠ [] := by
    rintro rfl
    exact given (List.map_eq_nil_iff.mp names.symm)
  obtain ⟨text, slots⟩ := d.dialect.updateNode_format node nonempty written
  refine ⟨ps, found, ?_⟩
  unfold Formatted.bind at bound
  rw [slots, List.mapM_append] at bound
  cases sets : (namedSlots (·.name) ps).mapM (Slot.bind [] (keys.give changed)) with
  | error =>
    rw [sets] at bound
    cases bound
  | ok values =>
    cases tests : (namedSlots (·.keyName) e.primaryKey).mapM (Slot.bind [] (keys.give changed)) with
    | error =>
      rw [sets, tests] at bound
      cases bound
    | ok keyed' =>
      rw [sets, tests] at bound
      cases bound
      refine ⟨text, ?_⟩
      rw [List.map_append, namedSlots_bind sets, namedSlots_bind tests, given_values names distinct]
      congr 1
      refine List.map_congr_left fun p member => ?_
      -- No value that is set is found under the name of a key.
      have absent : Named.find? changed.reverse p.keyName = none := Named.find?_none (by simpa using apart p member)
      rw [Named.find?_give, absent, Option.none_or, Entity.keyValues_find keyed p]

/-- Without a value for all of the primary key there is no command. -/
theorem updateCommand_missing (known : entities e.name = e) (sound : c.Sound (d.dialect.Made entities))
    (distinct : (changed.map (·.1)).Nodup) (apart : ∀ p ∈ e.primaryKey, p.keyName ∉ changed.map (·.1))
    (given : changed ≠ []) {p : Property} (isKey : p ∈ e.primaryKey) (missing : p.name ∉ key.map (·.1)) :
    ∃ error, ((d.dialect.updateCommand e key changed).run c).1 = .error error := by
  cases result : ((d.dialect.updateCommand e key changed).run c).1 with
  | error error => exact ⟨error, rfl⟩
  | ok answer =>
    obtain ⟨_, _, _, _, _, command, _, _, _, _, _, rfl⟩ := updateCommand_inv known sound given result
    obtain ⟨ps, -, -, parameters⟩ := updateCommand_values known sound distinct apart result
    have absent : Named.find? key.reverse p.name = none := Named.find?_none (by simpa using missing)
    have empty : (none : Option TypedValue) ∈ command.parameters.map some := by
      rw [parameters]
      exact List.mem_append_right _ (List.mem_map.mpr ⟨p, isKey, by rw [absent]; rfl⟩)
    simp at empty

/-- A property whose name is that of a key with the prefix: its new value is taken for the key. -/
theorem updateCommand_prefixed :
    let user : Entity := ⟨"User", "users",
      [⟨"Id", "id", .int32, true, false, false⟩, ⟨"original.Id", "orig", .int32, false, false, false⟩]⟩
    let update (key : List (String × Value)) := ((postgres.updateCommand user key [("original.Id", .int32 5)]).run
      (.ofCapacity 8)).1
    let command : Command :=
      ⟨"UPDATE \"users\" SET \"orig\" = $1 WHERE \"id\" = $2", [⟨.int32 5, .int32⟩, ⟨.int32 5, .int32⟩]⟩
    update [("Id", .int32 1)] = .ok (some command) ∧ update [] = .ok (some command) := by
  decide +kernel

end Dialect

end QueryTree
