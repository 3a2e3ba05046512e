import QueryTree.Number.Double

/-! The fewest digits that read back as a number.

A magnitude `m * 2 ^ q` is the nearest number to every real in an interval around it, whose ends belong
to it when `m` is even. On each decimal grid only the two neighbours of the magnitude can be the nearest
grid points in the interval, so the first grid with such a neighbour gives the fewest digits.
-/

set_option autoImplicit false

namespace QueryTree.Double

/-- Where an exact half goes between two texts of the same length. -/
inductive Tie where
  | up
  | toEven
  deriving DecidableEq, Repr

/-- The reals that round to a magnitude, as numerators over one denominator. -/
structure Interval where
  below : Nat
  value : Nat
  above : Nat
  denominator : Nat
  closed : Bool
  deriving Repr

def Interval.contains (i : Interval) (num : Nat) : Bool :=
  if i.closed then i.below ≤ num && num ≤ i.above else i.below < num && num < i.above

/-- The interval of a finite positive number, over a denominator that is a power of two. -/
def interval (d : Double) : Interval :=
  let m := d.mantissa
  let up := Nat.pow 2 d.scale.toNat
  let gap := if d.fraction = 0 ∧ 1 < d.exponentField then 1 else 2
  { below := (4 * m - gap) * up
    value := 4 * m * up
    above := (4 * m + 2) * up
    denominator := 4 * Nat.pow 2 (-d.scale).toNat
    closed := m % 2 = 0 }

/-- A multiple of `10 ^ exponent` in the interval nearest to its value, if there is one. -/
def Interval.onGrid (i : Interval) (tie : Tie) (exponent : Int) : Option Nat :=
  let unit := i.denominator * Nat.pow 10 exponent.toNat
  let stretch := Nat.pow 10 (-exponent).toNat
  let wide : Interval :=
    { i with below := i.below * stretch, value := i.value * stretch, above := i.above * stretch }
  let low := wide.value / unit
  let rest := 2 * (wide.value % unit)
  let lowIn := wide.contains (low * unit)
  let highIn := wide.contains ((low + 1) * unit)
  let preferHigh := unit < rest || (rest = unit && (tie = .up || low % 2 = 1))
  if lowIn && highIn then some (if preferHigh then low + 1 else low)
  else if lowIn then some low
  else if highIn then some (low + 1)
  else none

/-- Look from the coarsest grid down; seventeen digits always suffice. -/
def Interval.search (i : Interval) (tie : Tie) : Nat → Int → Nat × Int
  | 0, exponent => ((i.onGrid tie exponent).getD 0, exponent)
  | steps + 1, exponent =>
    match i.onGrid tie exponent with
    | some digits => if digits = 0 then i.search tie steps (exponent - 1) else (digits, exponent)
    | none => i.search tie steps (exponent - 1)

/-- Move trailing zeros of the digits into the exponent. -/
def stripZeros : Nat → Nat → Int → Nat × Int
  | 0, digits, exponent => (digits, exponent)
  | steps + 1, digits, exponent =>
    if digits % 10 = 0 ∧ digits ≠ 0 then stripZeros steps (digits / 10) (exponent + 1)
    else (digits, exponent)

/-- Digits and a power of ten for a finite magnitude, the fewest that read back. -/
def shortest (tie : Tie) (d : Double) : Nat × Int :=
  if d.mantissa = 0 then (0, 0) else
  let i := d.interval
  let decade : Int := ((i.value.log2 : Int) - i.denominator.log2 + 1) * 30103 / 100000 + 2
  let (digits, exponent) := i.search tie 22 decade
  stripZeros 20 digits exponent

/-- Digits, positional, without an exponent: the point stands inside or beside the digits. -/
def positional (digits : Nat) (exponent : Int) : String :=
  let text := (Nat.toDigits 10 digits)
  if 0 ≤ exponent then String.ofList (text ++ List.replicate exponent.toNat '0')
  else
    let places := (-exponent).toNat
    let padded := List.replicate (places + 1 - text.length) '0' ++ text
    let whole := padded.length - places
    String.ofList (padded.take whole) ++ "." ++ String.ofList (padded.drop whole)

/-- Shortest text, never with an exponent; a whole number has no point. -/
def render (d : Double) : String :=
  if d.isNaN then "NaN" else
  let (digits, exponent) := d.shortest .up
  let magnitude := if d.isInfinite then "inf" else positional digits exponent
  if d.isNegative then "-" ++ magnitude else magnitude

end QueryTree.Double
