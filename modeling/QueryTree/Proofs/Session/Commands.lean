import QueryTree.Dialect.Shipped
import QueryTree.Proofs.Session.PlanCache
import QueryTree.Session.Persistence

/-! Commands that are kept write what commands made anew write.

A command is kept under the name of its entity, the operation and the names of the properties that are set. The
tree it is written from can be built again from these and the entity, so a kept command is the one that would be
made now wherever a name stands for one entity. Two entities of one name share their commands, and then a row goes
to the table of the entity that came first.
-/

set_option autoImplicit false

namespace QueryTree

namespace Cache

variable {κ ν ε α β : Type} [BEq κ]

/-- A computation that answers the same from any sound cache, and leaves a sound one. -/
def Steady (good : κ → ν → Prop) (x : ExceptT ε (StateM (Cache κ ν)) α) : Prop :=
  ∀ c : Cache κ ν, c.Sound good →
    (x.run c).2.Sound good ∧ ∀ c' : Cache κ ν, c'.Sound good → (x.run c).1 = (x.run c').1

variable {good : κ → ν → Prop}

omit [BEq κ] in
theorem Steady.lift (y : Except ε α) : Steady good (ExceptT.mk (pure y)) := fun _ sound => ⟨sound, fun _ _ => rfl⟩

omit [BEq κ] in
theorem Steady.bind {x : ExceptT ε (StateM (Cache κ ν)) α} {f : α → ExceptT ε (StateM (Cache κ ν)) β}
    (first : Steady good x)
    (rest : ∀ a, (∃ c : Cache κ ν, c.Sound good ∧ (x.run c).1 = .ok a) → Steady good (f a)) :
    Steady good (x >>= f) := by
  intro c sound
  obtain ⟨kept, same⟩ := first c sound
  -- The second part runs from the cache that the first one leaves.
  have run_bind : ∀ c : Cache κ ν, (x >>= f).run c =
      match (x.run c).1 with
      | .ok a => (f a).run (x.run c).2
      | .error e => (.error e, (x.run c).2) := fun c => by
    simp only [ExceptT.run_bind]
    show (match (x.run c).1 with
      | .ok a => (f a).run
      | .error e => pure (.error e) : StateM (Cache κ ν) (Except ε β)) (x.run c).2 = _
    cases (x.run c).1 <;> rfl
  rw [run_bind]
  cases found : (x.run c).1 with
  | error e =>
    refine ⟨kept, fun c' sound' => ?_⟩
    rw [run_bind, ← same c' sound', found]
  | ok a =>
    obtain ⟨kept, again⟩ := rest a ⟨c, sound, found⟩ _ kept
    refine ⟨kept, fun c' sound' => ?_⟩
    rw [run_bind, ← same c' sound', found]
    exact again _ (first c' sound').1

theorem Steady.getOrCompile {key : κ} {compile : κ → Except ε ν}
    (made : ∀ v, compile key = .ok v → good key v)
    (only : ∀ k v, (k == key) = true → good k v → compile key = .ok v) :
    Steady good (Cache.getOrCompile key compile) := by
  have answer : ∀ c : Cache κ ν, c.Sound good → (Cache.getOrCompile key compile c).1 = compile key := by
    intro c sound
    have source := @getOrCompile_answer _ _ _ _ good c key compile sound
    rcases source with now | ⟨k, v, equal, known, kept⟩
    · exact now
    · rw [kept, only k v equal known]
  exact fun c sound => ⟨sound_getOrCompile sound made, fun c' sound' => (answer c sound).trans (answer c' sound').symm⟩

end Cache

namespace Entity

variable {e : Entity}

theorem find_name {name : String} {p : Property} (found : e.find name = .ok p) : e.find p.name = .ok p := by
  have named : p.name = name := by
    unfold find property? at found
    split at found
    next q listed =>
      obtain rfl := Except.ok.inj found
      simpa using List.find?_some listed
    next => cases found
  rw [named, found]

theorem mapM_find_names {α : Type} {name : α → String} : ∀ {values : List α} {ps : List Property},
    (values.mapM fun v => e.find (name v)) = .ok ps → (ps.map (·.name)).mapM e.find = .ok ps
  | [], ps, found => by
    obtain rfl := Except.ok.inj found
    rfl
  | v :: values, ps, found => by
    rw [List.mapM_cons] at found
    cases first : e.find (name v) with
    | error => rw [first] at found; cases found
    | ok p =>
      cases rest : values.mapM fun v => e.find (name v) with
      | error => rw [first, rest] at found; cases found
      | ok qs =>
        rw [first, rest] at found
        obtain rfl := Except.ok.inj found
        rw [List.map_cons, List.mapM_cons, find_name first, mapM_find_names rest]
        rfl

theorem assigned_names {named named' : Named} {values : List (String × Value)} {ps : List Property}
    (found : e.assigned named values = .ok (ps, named')) : (ps.map (·.name)).mapM e.find = .ok ps := by
  change (values.mapM fun v => e.find v.1) >>= _ = Except.ok (ps, named') at found
  cases properties : values.mapM fun v => e.find v.1 with
  | error => rw [properties] at found; cases found
  | ok qs =>
    rw [properties] at found
    obtain ⟨rfl, -⟩ := Prod.mk.inj (Except.ok.inj found)
    exact mapM_find_names properties

end Entity

namespace CommandKey

/-- The tree of a command, from its key and the entity. -/
def node (key : CommandKey) (e : Entity) : Except CompileError Node := do
  let properties ← key.properties.mapM e.find
  match key.operation with
  | .insert => return e.insertNode properties
  | .update => e.updateNode properties
  | .delete => e.deleteNode

end CommandKey

inductive CommandRequest where
  | insert (entity : Entity) (values : List (String × Value))
  | update (entity : Entity) (key changed : List (String × Value))
  | delete (entity : Entity) (key : List (String × Value))

namespace CommandRequest

def entity : CommandRequest → Entity
  | insert e _ | update e _ _ | delete e _ => e

/-- The command, if there is anything to do, and whether it returns an identity. -/
def answer (d : Dialect) : CommandRequest → ExceptT CompileError (StateM CommandCache) (Option Command × Bool)
  | insert e values => (fun (command, returnsKey) => (some command, returnsKey)) <$> d.insertCommand e values
  | update e key changed => (fun command => (command, false)) <$> d.updateCommand e key changed
  | delete e key => (fun command => (some command, false)) <$> d.deleteCommand e key

def answers (d : Dialect) (rs : List CommandRequest) :
    StateM CommandCache (List (Except CompileError (Option Command × Bool))) :=
  rs.mapM fun r => (r.answer d).run

end CommandRequest

namespace Dialect

variable (d : Dialect) {entities : String → Entity}

/-- What the key is compiled to, for the entity of its name. -/
def Made (entities : String → Entity) (key : CommandKey) (f : Formatted) : Prop :=
  (key.node (entities key.entity) >>= fun n => d.format (d.amend n)) = .ok f

theorem compiled_steady {key : CommandKey} {node : Except CompileError Node}
    (rebuilt : key.node (entities key.entity) = node) : Cache.Steady (d.Made entities) (d.compiled key node) := by
  refine Cache.Steady.getOrCompile (fun f compiled => ?_) (fun k f equal made => ?_)
  · rw [Made, rebuilt]
    exact compiled
  · obtain rfl := eq_of_beq equal
    rw [Made, rebuilt] at made
    exact made

variable {e : Entity} (known : entities e.name = e)
include known

theorem insertCommand_steady (values : List (String × Value)) :
    Cache.Steady (d.Made entities) (d.insertCommand e values) := by
  refine (Cache.Steady.lift _).bind ?_
  rintro ⟨properties, named⟩ ⟨_, _, found⟩
  refine (d.compiled_steady ?_).bind fun formatted _ =>
    (Cache.Steady.lift _).bind fun command _ => Cache.Steady.lift (.ok _)
  rw [known, CommandKey.node, Entity.assigned_names found]
  rfl

theorem updateCommand_steady (key changed : List (String × Value)) :
    Cache.Steady (d.Made entities) (d.updateCommand e key changed) := by
  unfold updateCommand
  split
  · exact Cache.Steady.lift (.ok none)
  refine (Cache.Steady.lift _).bind fun keys _ => (Cache.Steady.lift _).bind ?_
  rintro ⟨properties, named⟩ ⟨_, _, found⟩
  refine (d.compiled_steady ?_).bind fun formatted _ =>
    (Cache.Steady.lift _).bind fun command _ => Cache.Steady.lift (.ok _)
  rw [known, CommandKey.node, Entity.assigned_names found]
  rfl

theorem deleteCommand_steady (key : List (String × Value)) :
    Cache.Steady (d.Made entities) (d.deleteCommand e key) := by
  refine (Cache.Steady.lift _).bind fun keys _ => (d.compiled_steady ?_).bind fun formatted _ => Cache.Steady.lift _
  rw [known]
  rfl

end Dialect

namespace CommandRequest

variable (d : Dialect)

theorem answer_steady {entities : String → Entity} {r : CommandRequest} (known : entities r.entity.name = r.entity) :
    Cache.Steady (d.Made entities) (r.answer d) := by
  cases r with
  | insert e values => exact (d.insertCommand_steady known values).bind fun _ _ => Cache.Steady.lift (.ok _)
  | update e key changed => exact (d.updateCommand_steady known key changed).bind fun _ _ => Cache.Steady.lift (.ok _)
  | delete e key => exact (d.deleteCommand_steady known key).bind fun _ _ => Cache.Steady.lift (.ok _)

/-- Any number of calls, from commands that were made for their keys. -/
theorem answers_steady {entities : String → Entity} {fresh : CommandCache} (sound : fresh.Sound (d.Made entities)) :
    ∀ {rs : List CommandRequest}, (∀ r ∈ rs, entities r.entity.name = r.entity) →
      ∀ {c : CommandCache}, c.Sound (d.Made entities) →
        (answers d rs c).1 = rs.map fun r => ((r.answer d).run fresh).1
  | [], _, _, _ => rfl
  | r :: rs, known, c, kept => by
    obtain ⟨after, same⟩ := answer_steady d (known r List.mem_cons_self) c kept
    have split : (answers d (r :: rs) c).1 =
        ((r.answer d).run c).1 :: (answers d rs ((r.answer d).run c).2).1 := by
      simp only [answers, List.mapM_cons]
      rfl
    rw [split, same fresh sound, answers_steady sound (fun r mem => known r (List.mem_cons_of_mem _ mem)) after,
      List.map_cons]

def named (rs : List CommandRequest) (name : String) : Entity :=
  ((rs.map entity).find? (·.name == name)).getD default

theorem named_entity {rs : List CommandRequest}
    (apart : ∀ r ∈ rs, ∀ r' ∈ rs, r.entity.name = r'.entity.name → r.entity = r'.entity) {r : CommandRequest}
    (mem : r ∈ rs) : named rs r.entity.name = r.entity := by
  have some : ((rs.map entity).find? (·.name == r.entity.name)).isSome := by
    rw [List.find?_isSome]
    exact ⟨r.entity, List.mem_map_of_mem mem, beq_self_eq_true _⟩
  obtain ⟨e, found⟩ := Option.isSome_iff_exists.mp some
  obtain ⟨r', mem', rfl⟩ := List.mem_map.mp (List.mem_of_find?_eq_some found)
  rw [named, found, Option.getD_some]
  exact apart r' mem' r mem (eq_of_beq (List.find?_some (p := fun e : Entity => e.name == r.entity.name) found))

/-- Where a name stands for one entity, every call in any order of calls gives what it gives with an empty cache. -/
theorem answers_transparent (capacity : Nat) {rs : List CommandRequest}
    (apart : ∀ r ∈ rs, ∀ r' ∈ rs, r.entity.name = r'.entity.name → r.entity = r'.entity) :
    (answers d rs (.ofCapacity capacity)).1 = rs.map fun r => ((r.answer d).run (.ofCapacity capacity)).1 :=
  have empty : Cache.Sound (d.Made (named rs)) (.ofCapacity capacity) := Cache.sound_ofCapacity capacity
  answers_steady d empty (fun _ mem => named_entity apart mem) empty

/-- Two entities of one name: the second row is written to the table of the first. -/
theorem answers_mixed :
    let user (table column : String) : Entity := ⟨"User", table, [⟨"Name", column, .text, false, false, false⟩]⟩
    let ann : CommandRequest := .insert (user "users" "name") [("Name", .text "ann")]
    let bob : CommandRequest := .insert (user "members" "full_name") [("Name", .text "bob")]
    let text (answer : Except CompileError (Option Command × Bool)) := answer.toOption.bind fun a => a.1.map (·.text)
    ((answers .postgres [ann, bob] (.ofCapacity 8)).1.map text)[1]? =
        some (some "INSERT INTO \"users\" (\"name\") VALUES ($1)") ∧
      text ((bob.answer .postgres).run (.ofCapacity 8)).1 =
        some "INSERT INTO \"members\" (\"full_name\") VALUES ($1)" := by
  decide +kernel

end CommandRequest

end QueryTree
