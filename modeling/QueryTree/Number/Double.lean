/-! Binary64 numbers by their bits.

Numbers are equal when their bits are, so every NaN equals itself and the two zeros differ. Reading a
quotient rounds once, to the nearest number and to the even one of two that are equally near.
-/

set_option autoImplicit false

namespace QueryTree

structure Double where
  bits : UInt64
  deriving DecidableEq, Repr, Inhabited

namespace Double

def zero : Double := ⟨0⟩

def infinity : Double := ⟨0x7ff0000000000000⟩

def nan : Double := ⟨0x7ff8000000000000⟩

def isNegative (d : Double) : Bool := d.bits >>> 63 = 1

/-- The biased exponent field. -/
def exponentField (d : Double) : Nat := ((d.bits >>> 52) &&& 0x7ff).toNat

/-- The 52 bits below the exponent. -/
def fraction (d : Double) : Nat := (d.bits &&& 0xfffffffffffff).toNat

def isNaN (d : Double) : Bool := d.exponentField = 0x7ff && d.fraction ≠ 0

def isInfinite (d : Double) : Bool := d.exponentField = 0x7ff && d.fraction = 0

def isFinite (d : Double) : Bool := d.exponentField ≠ 0x7ff

def abs (d : Double) : Double := ⟨d.bits &&& 0x7fffffffffffffff⟩

def negate (d : Double) : Double := ⟨d.bits ^^^ 0x8000000000000000⟩

/-- The whole number `m` of a finite magnitude `m * 2 ^ scale`. -/
def mantissa (d : Double) : Nat :=
  if d.exponentField = 0 then d.fraction else d.fraction + Nat.pow 2 52

/-- The power of two of a finite magnitude; see `mantissa`. -/
def scale (d : Double) : Int := (max d.exponentField 1 : Nat) - 1075

/-- `num / den` to the nearest whole number, a half going to the even one. -/
def roundEven (num den : Nat) : Nat :=
  let floor := num / den
  let rest := 2 * (num % den)
  if den < rest ∨ (den = rest ∧ floor % 2 = 1) then floor + 1 else floor

/-- The nearest number to `num / den`, for a positive `den`. -/
def ofRatio (num den : Nat) : Double :=
  if num = 0 then zero else
  let guess : Int := (num.log2 : Int) - den.log2
  let tooHigh := num * Nat.pow 2 (-guess).toNat < den * Nat.pow 2 guess.toNat
  let scale := max ((if tooHigh then guess - 1 else guess) - 52) (-1074)
  let whole := roundEven (num * Nat.pow 2 (-scale).toNat) (den * Nat.pow 2 scale.toNat)
  let bits := (scale + 1074).toNat * Nat.pow 2 52 + whole
  if bits < 0x7ff0000000000000 then ⟨bits.toUInt64⟩ else infinity

def ofInt (n : Int) : Double :=
  let magnitude := ofRatio n.natAbs 1
  if n < 0 then magnitude.negate else magnitude

/-- The nearest number to `digits * 10 ^ exponent`. Exponents too large or too small to matter are not
raised to a power. -/
def ofDecimal (digits : Nat) (exponent : Int) : Double :=
  if digits = 0 then zero
  else if 0 ≤ exponent then
    if 400 < exponent then infinity else ofRatio (digits * Nat.pow 10 exponent.toNat) 1
  else if (digits.log2 : Int) + 3 * exponent < -2000 then zero
  else ofRatio digits (Nat.pow 10 (-exponent).toNat)

/-- `m * 2 ^ scale`, rounded. -/
def ofScaled (m : Nat) (scale : Int) : Double :=
  ofRatio (m * Nat.pow 2 scale.toNat) (Nat.pow 2 (-scale).toNat)

/-- The product of two finite magnitudes, rounded once. -/
def mul (a b : Double) : Double := ofScaled (a.mantissa * b.mantissa) (a.scale + b.scale)

/-- The quotient of two finite magnitudes, rounded once; the divisor is not zero. -/
def div (a b : Double) : Double :=
  let scale := a.scale - b.scale
  ofRatio (a.mantissa * Nat.pow 2 scale.toNat) (b.mantissa * Nat.pow 2 (-scale).toNat)

end Double

end QueryTree
