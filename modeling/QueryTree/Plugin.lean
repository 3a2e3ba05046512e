import QueryTree.Dialect.Basic
import QueryTree.Pass.Pipeline

/-! Passes and amenders from outside.

A plugin adds to a registry when it is loaded. A pipeline takes the passes over from the registry, after its
own; a dialect has the amenders run after its own. A plugin that fails takes what it added along.
-/

set_option autoImplicit false

namespace QueryTree

structure PluginInfo where
  name : String
  version : String := ""
  description : String := ""
  deriving DecidableEq, Repr, Inhabited

structure Registry where
  passes : List Pass := []
  amenders : List Amender := []
  loaded : List PluginInfo := []

/-- A plugin may do to the registry what it likes; it fails with a text. -/
structure Plugin where
  info : PluginInfo
  register : Registry → Option String × Registry

namespace Registry

def addPass (r : Registry) (pass : Pass) : Registry := { r with passes := r.passes ++ [pass] }

def addAmender (r : Registry) (amender : Amender) : Registry := { r with amenders := r.amenders ++ [amender] }

/-- As many passes and amenders as there were before. -/
def cutBack (before after : Registry) : Registry :=
  { after with
    passes := after.passes.take before.passes.length
    amenders := after.amenders.take before.amenders.length }

/-- Load a plugin whose name is not loaded yet; the text of the failure, if there is one. -/
def load (p : Plugin) (r : Registry) : Option String × Registry :=
  if r.loaded.any (·.name == p.info.name) then (some ("plugin " ++ p.info.name ++ " is already loaded"), r)
  else match p.register r with
    | (some text, after) =>
      (some ("registering plugin " ++ p.info.name ++ ": " ++ text), r.cutBack after)
    | (none, after) => (none, { after with loaded := after.loaded ++ [p.info] })

/-- The passes leave the registry for the end of a pipeline. -/
def installPasses (r : Registry) (p : Pipeline) : Pipeline × Registry :=
  (r.passes.foldl Pipeline.add p, { r with passes := [] })

def extend (r : Registry) (d : Dialect) : Dialect := { d with amenders := d.amenders ++ r.amenders }

end Registry

end QueryTree
