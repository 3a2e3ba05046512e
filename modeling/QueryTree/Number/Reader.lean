import QueryTree.Number.Double

/-! Reading decimal text as a binary64 number.

A sign, digits with at most one point and at least one digit, and an exponent with at least one digit;
or infinity or NaN by name in either case. Blanks are refused. The text rounds once to the nearest number.
-/

set_option autoImplicit false

namespace QueryTree.Double

def digitsValue (cs : List Char) : Nat := cs.foldl (fun n c => 10 * n + (c.toNat - 48)) 0

/-- A sign apart from the rest; a plus sign says nothing. -/
def splitSign : List Char → Bool × List Char
  | '-' :: rest => (true, rest)
  | '+' :: rest => (false, rest)
  | rest => (false, rest)

/-- The exponent after the digits: absent, or a letter, a sign and digits to the end. -/
def exponent? : List Char → Option Int
  | [] => some 0
  | c :: rest =>
    if c = 'e' ∨ c = 'E' then
      let (negative, digits) := splitSign rest
      if digits.isEmpty ∨ !digits.all Char.isDigit then none
      else some (if negative then -(digitsValue digits : Int) else digitsValue digits)
    else none

/-- An unsigned decimal number. -/
def magnitude? (cs : List Char) : Option Double :=
  let whole := cs.takeWhile Char.isDigit
  let rest := cs.dropWhile Char.isDigit
  let (places, rest) := match rest with
    | '.' :: rest => (rest.takeWhile Char.isDigit, rest.dropWhile Char.isDigit)
    | rest => ([], rest)
  if whole.isEmpty ∧ places.isEmpty then none
  else (exponent? rest).map fun exponent =>
    ofDecimal (digitsValue (whole ++ places)) (exponent - places.length)

def parse? (text : String) : Option Double :=
  let (negative, rest) := splitSign text.toList
  let signed (d : Double) := if negative then d.negate else d
  match String.ofList (rest.map Char.toLower) with
  | "inf" | "infinity" => some (signed infinity)
  | "nan" => some (signed nan)
  | _ => (magnitude? rest).map signed

end QueryTree.Double
