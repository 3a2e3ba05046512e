import QueryTree.Routine
import QueryTree.Text.Case

/-! What a routine makes of literal arguments.

Nothing, where the outcome depends on the database or the arguments are not of a form the routine takes; the
call then stays as it is. A concatenation with a null is left to the database, which may see it either way.
-/

set_option autoImplicit false

namespace QueryTree

namespace Text

/-- `part` stands somewhere in `whole`. -/
def contains (part : List Char) : List Char → Bool
  | [] => part.isEmpty
  | c :: rest => part.isPrefixOf (c :: rest) || contains part rest

/-- Without the spaces at either end; other blanks stay. -/
def trimSpaces (s : String) : String :=
  String.ofList (((s.toList.dropWhile (· = ' ')).reverse.dropWhile (· = ' ')).reverse)

end Text

/-- The text an argument adds to a concatenation. -/
def Value.concatText? : Value → Option String
  | .text s => some s
  | .int32 n => some (toString n.toInt)
  | .int64 n => some (toString n.toInt)
  | _ => none

/-- The first value that is not null. -/
def Value.firstGiven (values : List Value) : Value := (values.find? fun v => !v.isNull).getD .null

namespace Routine

def evaluate? : Routine → List Value → Option Value
  | .concat, arguments => (arguments.mapM Value.concatText?).map fun texts => .text (String.join texts)
  | .coalesce, arguments => some (Value.firstGiven arguments)
  | .upper, [.text s] => some (.text (Text.toCapitals s))
  | .lower, [.text s] => some (.text (Text.toSmalls s))
  | .trim, [.text s] => some (.text (Text.trimSpaces s))
  | .length, [.text s] => some (.int32 (Int32.ofNat s.length))
  | .startsWith, [.text s, .text p] => some (.bool (p.toList.isPrefixOf s.toList))
  | .endsWith, [.text s, .text p] => some (.bool (p.toList.isSuffixOf s.toList))
  | .containsString, [.text s, .text p] => some (.bool (Text.contains p.toList s.toList))
  | .abs, [.int32 n] => if n = Int32.minValue then none else some (.int32 n.abs)
  | .abs, [.int64 n] => if n = Int64.minValue then none else some (.int64 n.abs)
  | .abs, [.double d] => some (.double d.abs)
  | _, _ => none

end Routine

end QueryTree
