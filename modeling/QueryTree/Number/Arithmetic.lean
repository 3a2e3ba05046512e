import QueryTree.Number.Double

/-! Order and arithmetic of binary64 numbers.

Finite numbers are whole numbers of units that are powers of two, so sums, products and quotients are found
exactly and rounded once. An operation whose outcome is not finite has none.
-/

set_option autoImplicit false

namespace QueryTree.Double

/-- Grows with the number; the two zeros have the same rank. -/
def rank (d : Double) : Int :=
  if d.isNegative then -(d.abs.bits.toNat : Int) else d.abs.bits.toNat

/-- NaN has no place in the order. -/
def order? (a b : Double) : Option Ordering :=
  if a.isNaN || b.isNaN then none else some (compare a.rank b.rank)

def withSign (negative : Bool) (d : Double) : Double := if negative then d.negate else d

def kept? (d : Double) : Option Double := if d.isFinite then some d else none

/-- A finite number in units of `2 ^ scale`, for a scale no greater than its own. -/
def units (d : Double) (scale : Int) : Int :=
  let magnitude : Int := (d.mantissa * Nat.pow 2 (d.scale - scale).toNat : Nat)
  if d.isNegative then -magnitude else magnitude

/-- A sum that is zero is negative only when both terms are. -/
def sum? (a b : Double) : Option Double :=
  if a.isFinite && b.isFinite then
    let scale := min a.scale b.scale
    let n := a.units scale + b.units scale
    let negative := if n = 0 then a.isNegative && b.isNegative else decide (n < 0)
    kept? ((ofScaled n.natAbs scale).withSign negative)
  else none

def difference? (a b : Double) : Option Double := sum? a b.negate

def product? (a b : Double) : Option Double :=
  if a.isFinite && b.isFinite then kept? ((a.mul b).withSign (a.isNegative != b.isNegative)) else none

/-- Division by either zero has no outcome. -/
def quotient? (a b : Double) : Option Double :=
  let negative := a.isNegative != b.isNegative
  if !a.isFinite || b.isNaN || b.rank = 0 then none
  else if b.isInfinite then some (zero.withSign negative)
  else kept? ((a.div b).withSign negative)

end QueryTree.Double
