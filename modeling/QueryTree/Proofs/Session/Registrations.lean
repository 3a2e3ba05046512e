import Mathlib.Data.List.Nodup
import QueryTree.Plugin

/-! What a plugin that fails takes along, and what it leaves.

A plugin may add passes and amenders, take the passes for a pipeline, and load other plugins, which may do the same.
When it fails, the registry is cut back to as many passes and amenders as there were. All amenders that it added are
gone then, and all passes too, but passes that were taken do not come back and plugins that it loaded stay loaded. The
names of the plugins are distinct unless one loads another of its own name.
-/

set_option autoImplicit false

namespace QueryTree.Registry

/-- What may come of a registry by what a registry offers. `takes` says whether its passes may be taken, and `allowed`
which plugins may be loaded when. -/
inductive Registered (takes : Prop) (allowed : Plugin → Registry → Prop) : Registry → Registry → Prop
  | same (r : Registry) : Registered takes allowed r r
  | pass {r s : Registry} (before : Registered takes allowed r s) (pass : Pass) :
    Registered takes allowed r (s.addPass pass)
  | amender {r s : Registry} (before : Registered takes allowed r s) (amender : Amender) :
    Registered takes allowed r (s.addAmender amender)
  | taken {r s : Registry} (before : Registered takes allowed r s) (taking : takes) (p : Pipeline) :
    Registered takes allowed r (s.installPasses p).2
  | loaded {r s : Registry} (before : Registered takes allowed r s) (p : Plugin) (may : allowed p s)
    (registers : Registered takes allowed s (p.register s).2) : Registered takes allowed r (s.load p).2

variable {takes : Prop} {allowed : Plugin → Registry → Prop} {r s : Registry} {p : Plugin} {text : String}

def names (r : Registry) : List String := r.loaded.map (·.name)

/-! ### Loading -/

theorem load_cases (p : Plugin) (r : Registry) :
    (p.info.name ∈ r.names ∧ r.load p = (some ("plugin " ++ p.info.name ++ " is already loaded"), r)) ∨
      (∃ text, p.info.name ∉ r.names ∧ (p.register r).1 = some text ∧
        r.load p = (some ("registering plugin " ++ p.info.name ++ ": " ++ text), r.cutBack (p.register r).2)) ∨
      (p.info.name ∉ r.names ∧ (p.register r).1 = none ∧
        r.load p = (none, { (p.register r).2 with loaded := (p.register r).2.loaded ++ [p.info] })) := by
  have known : r.loaded.any (·.name == p.info.name) = decide (p.info.name ∈ r.names) := by
    rw [Bool.eq_iff_iff]
    simp [names]
  unfold load
  rw [known]
  by_cases member : p.info.name ∈ r.names
  · simp [member]
  · cases registered : p.register r with
    | mk failure after => cases failure <;> simp [member]

/-- A registry that another has come of. Passes are missing from it only where they may be taken. -/
structure Grows (takes : Prop) (r s : Registry) : Prop where
  amenders : r.amenders <+: s.amenders
  loaded : r.loaded <+: s.loaded
  passes : ¬takes → r.passes <+: s.passes

theorem grows_self (r : Registry) : Grows takes r r := ⟨List.prefix_rfl, List.prefix_rfl, fun _ => List.prefix_rfl⟩

theorem Grows.trans {q : Registry} (first : Grows takes q r) (later : Grows takes r s) : Grows takes q s where
  amenders := first.amenders.trans later.amenders
  loaded := first.loaded.trans later.loaded
  passes keeps := (first.passes keeps).trans (later.passes keeps)

theorem Grows.cutBack_amenders (grown : Grows takes r s) : (r.cutBack s).amenders = r.amenders :=
  (List.prefix_iff_eq_take.mp grown.amenders).symm

theorem cutBack_passes : (r.cutBack s).passes = r.passes ↔ r.passes <+: s.passes := by
  rw [List.prefix_iff_eq_take, eq_comm]
  rfl

theorem Grows.load (grown : Grows takes r (p.register r).2) : Grows takes r (r.load p).2 := by
  rcases load_cases p r with ⟨-, after⟩ | ⟨text, -, -, after⟩ | ⟨-, -, after⟩
  · rw [after]
    exact grows_self r
  · rw [after]
    constructor
    case amenders => exact ⟨[], (List.append_nil _).trans grown.cutBack_amenders.symm⟩
    case loaded => exact grown.loaded
    case passes =>
      intro keeps
      exact ⟨[], (List.append_nil _).trans (cutBack_passes.mpr (grown.passes keeps)).symm⟩
  · rw [after]
    constructor
    case amenders => exact grown.amenders
    case loaded => exact grown.loaded.trans (List.prefix_append _ _)
    case passes => exact grown.passes

/-- Whatever plugins do, the registry grows. -/
theorem Registered.grows (run : Registered takes allowed r s) : Grows takes r s := by
  induction run with
  | same r => exact grows_self r
  | pass _ pass ih =>
    exact ih.trans ⟨List.prefix_rfl, List.prefix_rfl, fun _ => List.prefix_append _ _⟩
  | amender _ amender ih =>
    exact ih.trans ⟨List.prefix_append _ _, List.prefix_rfl, fun _ => List.prefix_rfl⟩
  | taken _ taking p ih =>
    exact ih.trans ⟨List.prefix_rfl, List.prefix_rfl, fun keeps => absurd taking keeps⟩
  | loaded _ p may _ ih inner => exact ih.trans inner.load

/-- What fails to load does not stay loaded, nor does anything that it fails to load in turn. -/
theorem Registered.loaded_same (fail : ∀ p s, allowed p s → (p.register s).1.isSome)
    (run : Registered takes allowed r s) : s.loaded = r.loaded := by
  induction run with
  | same => rfl
  | pass _ _ ih => exact ih
  | amender _ _ ih => exact ih
  | taken _ _ _ ih => exact ih
  | @loaded _ s _ p may _ ih inner =>
    rcases load_cases p s with ⟨-, after⟩ | ⟨text, -, -, after⟩ | ⟨-, done, -⟩
    · rwa [after]
    · rw [after]
      exact inner.trans ih
    · have failed := fail p s may
      rw [done] at failed
      cases failed

/-! ### A plugin that fails -/

/-- All amenders of a plugin that fails are gone. The registry is as it was just in case no plugin stays loaded that it
loaded, and it took no passes that were there. -/
theorem failed_load (new : p.info.name ∉ r.names) (fails : (p.register r).1 = some text)
    (registers : Registered takes allowed r (p.register r).2) :
    (r.load p).2.amenders = r.amenders ∧ r.loaded <+: (r.load p).2.loaded ∧
      ((r.load p).2 = r ↔ (p.register r).2.loaded = r.loaded ∧ r.passes <+: (p.register r).2.passes) := by
  have grown := registers.grows
  have after : (r.load p).2 = r.cutBack (p.register r).2 := by
    -- Neither known nor done, so the registry was cut back.
    rcases load_cases p r with ⟨known, -⟩ | ⟨text, -, -, after⟩ | ⟨-, done, -⟩
    · exact absurd known new
    · rw [after]
    · rw [done] at fails
      cases fails
  rw [after]
  refine ⟨grown.cutBack_amenders, grown.loaded, ?_⟩
  constructor
  · intro same
    have loaded : (r.cutBack (p.register r).2).loaded = r.loaded := congrArg Registry.loaded same
    exact ⟨loaded, cutBack_passes.mp (congrArg Registry.passes same)⟩
  · rintro ⟨loaded, passes⟩
    cases r
    simp only [cutBack, mk.injEq]
    exact ⟨cutBack_passes.mpr passes, grown.cutBack_amenders, loaded⟩

/-- A plugin that takes no passes, and loads none but such as fail, leaves nothing behind when it fails. -/
theorem failed_load_restores (keeps : ¬takes) (fail : ∀ p s, allowed p s → (p.register s).1.isSome)
    (new : p.info.name ∉ r.names) (fails : (p.register r).1 = some text)
    (registers : Registered takes allowed r (p.register r).2) : (r.load p).2 = r :=
  (failed_load new fails registers).2.2.mpr ⟨registers.loaded_same fail, registers.grows.passes keeps⟩

/-- Neither a plugin that was loaded nor passes that were taken come back when the one fails that did it. -/
theorem failed_load_leaves :
    let inner : Plugin := ⟨{ name := "inner" }, fun r => (none, r)⟩
    let outer : Plugin := ⟨{ name := "outer" }, fun r => (some "no connection", (r.load inner).2)⟩
    let taker : Plugin := ⟨{ name := "taker" }, fun r => (some "no connection", (r.installPasses {}).2)⟩
    let pass : Pass := ⟨"keep", "", id⟩
    (Registry.load outer {}).2.loaded = [{ name := "inner" }] ∧
      (Registry.load taker { passes := [pass] }).2.passes = [] :=
  ⟨rfl, rfl⟩

/-! ### Names -/

/-- Names stay distinct where no plugin loads one of its own name. -/
theorem Registered.names_distinct
    (foreign : ∀ p s, allowed p s → p.info.name ∉ s.names → p.info.name ∉ (p.register s).2.names)
    (distinct : r.names.Nodup) (run : Registered takes allowed r s) : s.names.Nodup := by
  induction run with
  | same => exact distinct
  | pass _ _ ih => exact ih distinct
  | amender _ _ ih => exact ih distinct
  | taken _ _ _ ih => exact ih distinct
  | @loaded _ s _ p may _ ih inner =>
    rcases load_cases p s with ⟨-, after⟩ | ⟨text, -, -, after⟩ | ⟨new, -, after⟩
    · rw [after]
      exact ih distinct
    · rw [after]
      exact inner (ih distinct)
    · rw [after]
      unfold names
      rw [List.map_append, List.map_singleton, ← List.concat_eq_append, List.nodup_concat]
      exact ⟨foreign p s may new, inner (ih distinct)⟩

def loadAll (ps : List Plugin) (r : Registry) : Registry := ps.foldl (fun r p => (r.load p).2) r

theorem registered_loadAll (ps : List Plugin) (may : ∀ p ∈ ps, ∀ s, allowed p s)
    (registers : ∀ p ∈ ps, ∀ s, Registered takes allowed s (p.register s).2) (before : Registered takes allowed r s) :
    Registered takes allowed r (loadAll ps s) := by
  induction ps generalizing s with
  | nil => exact before
  | cons p ps ih =>
    obtain ⟨here, later⟩ := List.forall_mem_cons.mp may
    obtain ⟨one, others⟩ := List.forall_mem_cons.mp registers
    exact ih later others (.loaded before p (here s) (one s))

theorem loadAll_distinct {ps : List Plugin} (may : ∀ p ∈ ps, ∀ s, allowed p s)
    (registers : ∀ p ∈ ps, ∀ s, Registered takes allowed s (p.register s).2)
    (foreign : ∀ p s, allowed p s → p.info.name ∉ s.names → p.info.name ∉ (p.register s).2.names) :
    (loadAll ps {}).names.Nodup := by
  apply (registered_loadAll ps may registers (.same {})).names_distinct foreign
  exact List.nodup_nil

/-- The name of a plugin is looked for only before the plugin registers. -/
theorem own_name_twice :
    let inner : Plugin := ⟨{ name := "twin" }, fun r => (none, r)⟩
    let outer : Plugin := ⟨{ name := "twin" }, fun r => (none, (r.load inner).2)⟩
    (loadAll [outer] {}).names = ["twin", "twin"] := rfl

end QueryTree.Registry
