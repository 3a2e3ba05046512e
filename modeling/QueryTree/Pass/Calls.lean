import QueryTree.Pass.Pipeline

/-! Calls that add nothing to the calls they hold or stand in. -/

set_option autoImplicit false

namespace QueryTree.Pass

/-- What an argument adds to a call of `routine` that takes its own calls apart. -/
def spliced (routine : Routine) : Node → List Node
  | .call inner arguments type => if inner = routine then arguments else [.call inner arguments type]
  | n => [n]

def flattenCall : Node → Node
  | .call routine arguments type =>
    if routine.isAssociative then .call routine (arguments.flatMap (spliced routine)) type
    else .call routine arguments type
  | n => n

def flatCalls : Pass :=
  { name := "function_coalescing"
    description := "Flattens nested CONCAT and COALESCE chains into one call"
    transform := Node.mapUp flattenCall }

/-- A call of one argument that is that argument, or a second application of a routine that needs but one. -/
def unwrapCall : Node → Node
  | .call .concat [only] _ | .call .coalesce [only] _ => only
  | .call routine [.call inner [argument] innerType] type =>
    if routine.isIdempotent && inner = routine then .call inner [argument] innerType
    else .call routine [.call inner [argument] innerType] type
  | n => n

def bareCalls : Pass :=
  { name := "redundant_function_removal"
    description := "Removes single-argument CONCAT/COALESCE and doubled idempotent calls"
    transform := Node.mapUp unwrapCall }

end QueryTree.Pass
