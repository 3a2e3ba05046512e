import QueryTree.Pass.Calls
import QueryTree.Pass.Conditionals
import QueryTree.Pass.Connectives
import QueryTree.Pass.Entities
import QueryTree.Pass.EqualColumns
import QueryTree.Pass.Folding
import QueryTree.Pass.GroupAggregates
import QueryTree.Pass.GroupKeys
import QueryTree.Pass.Membership
import QueryTree.Pass.Merging
import QueryTree.Pass.UnusedColumns

/-! The pipeline of all passes. -/

set_option autoImplicit false

namespace QueryTree

/-- Aggregates are lifted before columns are pruned, and literals that a pass brings forth are folded
by the ones after it. -/
def Pass.all : List Pass :=
  [groupKeys, groupAggregates, unusedColumns, equalColumns, sources, flatCalls, connectives, entities,
    literals, bareCalls, conditionals, membership]

def Pass.named? (name : String) : Option Pass := Pass.all.find? (·.name == name)

def Pipeline.standard : Pipeline := { passes := Pass.all }

end QueryTree
