import QueryTree.Value

/-! The scalar routines a query tree may call.

How a routine is spelled belongs to a dialect. What it does to literals is here, for the routines whose
outcome does not depend on the database.
-/

set_option autoImplicit false

namespace QueryTree

inductive Routine where
  | concat
  | coalesce
  | upper
  | lower
  | trim
  | length
  | substring
  | startsWith
  | endsWith
  | containsString
  | like
  /-- Membership: the first argument is sought among the others. -/
  | isIn
  | abs
  | round
  | now
  | year
  | month
  | day
  | rowNumber
  /-- Conversion to the type of the call. -/
  | cast
  | custom (name : String)
  deriving DecidableEq, Repr, Inhabited

namespace Routine

def name : Routine → String
  | .concat => "Concat"
  | .coalesce => "Coalesce"
  | .upper => "Upper"
  | .lower => "Lower"
  | .trim => "Trim"
  | .length => "Length"
  | .substring => "Substring"
  | .startsWith => "StartsWith"
  | .endsWith => "EndsWith"
  | .containsString => "ContainsString"
  | .like => "Like"
  | .isIn => "In"
  | .abs => "Abs"
  | .round => "Round"
  | .now => "Now"
  | .year => "Year"
  | .month => "Month"
  | .day => "Day"
  | .rowNumber => "RowNumber"
  | .cast => "Cast"
  | .custom name => name

/-- A second application changes nothing. -/
def isIdempotent : Routine → Bool
  | .upper | .lower | .trim | .abs => true
  | _ => false

/-- A nested call's arguments may stand in the outer call. -/
def isAssociative : Routine → Bool
  | .concat | .coalesce => true
  | _ => false

/-- The call is a test rather than a value. -/
def isPredicate : Routine → Bool
  | .startsWith | .endsWith | .containsString | .like | .isIn => true
  | _ => false

end Routine

end QueryTree
