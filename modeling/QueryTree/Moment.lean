/-! A date with a time of day and no zone.

A moment reads from `year-month-day`, the letter `T` and `hour:minute:second` with an optional fraction;
blanks may stand before each number and before a mark. A second may be the sixtieth, for a leap second.
Its fraction is written with the fewest of zero, three, six or nine digits that lose nothing.
-/

set_option autoImplicit false

namespace QueryTree

structure Moment where
  year : Int
  month : Nat
  day : Nat
  hour : Nat
  minute : Nat
  second : Nat
  nano : Nat
  deriving DecidableEq, Repr, Inhabited

namespace Moment

def isLeapYear (year : Int) : Bool :=
  year % 4 = 0 && (year % 100 ≠ 0 || year % 400 = 0)

def daysIn (year : Int) (month : Nat) : Nat :=
  match month with
  | 4 | 6 | 9 | 11 => 30
  | 2 => if isLeapYear year then 29 else 28
  | _ => 31

def padded (width n : Nat) : String :=
  let digits := Nat.toDigits 10 n
  String.ofList (List.replicate (width - digits.length) '0' ++ digits)

/-- Four digits at least; years beyond them carry their sign. -/
def renderYear (year : Int) : String :=
  if 0 ≤ year ∧ year ≤ 9999 then padded 4 year.toNat
  else (if year < 0 then "-" else "+") ++ padded 4 year.natAbs

def renderFraction (nano : Nat) : String :=
  if nano = 0 then ""
  else if nano % 1000000 = 0 then "." ++ padded 3 (nano / 1000000)
  else if nano % 1000 = 0 then "." ++ padded 6 (nano / 1000)
  else "." ++ padded 9 nano

/-- The date, the separator and the time. -/
def renderWith (separator : String) (m : Moment) : String :=
  renderYear m.year ++ "-" ++ padded 2 m.month ++ "-" ++ padded 2 m.day ++ separator ++
    padded 2 m.hour ++ ":" ++ padded 2 m.minute ++ ":" ++ padded 2 m.second ++ renderFraction m.nano

/-- The text written in commands and messages. -/
def render (m : Moment) : String := m.renderWith " "

/-- Blanks as Unicode has them. -/
def isBlank (c : Char) : Bool :=
  let n := c.toNat
  (9 ≤ n && n ≤ 13) || n = 0x20 || n = 0x85 || n = 0xa0 || n = 0x1680 || (0x2000 ≤ n && n ≤ 0x200a) ||
    n = 0x2028 || n = 0x2029 || n = 0x202f || n = 0x205f || n = 0x3000

def skipBlanks (cs : List Char) : List Char := cs.dropWhile isBlank

def digitsValue (cs : List Char) : Nat := cs.foldl (fun n c => 10 * n + (c.toNat - 48)) 0

/-- One to `width` digits. -/
def number? (width : Nat) (cs : List Char) : Option (Nat × List Char) :=
  let digits := (cs.take width).takeWhile Char.isDigit
  if digits.isEmpty then none else some (digitsValue digits, cs.drop digits.length)

/-- Up to four digits, or a sign and any number of digits. -/
def year? (cs : List Char) : Option (Int × List Char) :=
  match cs with
  | '-' :: rest => (number? rest.length rest).map fun (n, rest) => (-(n : Int), rest)
  | '+' :: rest => (number? rest.length rest).map fun (n, rest) => ((n : Int), rest)
  | rest => (number? 4 rest).map fun (n, rest) => ((n : Int), rest)

/-- A mark, after blanks. -/
def mark? (mark : Char) (cs : List Char) : Option (List Char) :=
  match skipBlanks cs with
  | c :: rest => if c = mark then some rest else none
  | [] => none

/-- A two-digit field no greater than `most`, after blanks. -/
def field? (most : Nat) (cs : List Char) : Option (Nat × List Char) := do
  let (n, rest) ← number? 2 (skipBlanks cs)
  if n ≤ most then some (n, rest) else none

/-- A fraction after a point, of which nine digits count. -/
def fraction? (cs : List Char) : Option (Nat × List Char) :=
  match cs with
  | '.' :: rest =>
    let digits := rest.takeWhile Char.isDigit
    if digits.isEmpty then none
    else some (digitsValue (digits.take 9) * Nat.pow 10 (9 - digits.length), rest.drop digits.length)
  | _ => some (0, cs)

/-- The years a moment may lie in. -/
def yearInRange (year : Int) : Bool := -262143 ≤ year && year ≤ 262142

def parse? (text : String) : Option Moment := do
  let (year, rest) ← year? (skipBlanks text.toList)
  let (month, rest) ← field? 12 (← mark? '-' rest)
  let (day, rest) ← field? 31 (← mark? '-' rest)
  let (hour, rest) ← field? 23 (← mark? 'T' rest)
  let (minute, rest) ← field? 59 (← mark? ':' rest)
  let (second, rest) ← field? 60 (← mark? ':' rest)
  let (nano, rest) ← fraction? rest
  if (skipBlanks rest).isEmpty && yearInRange year && 0 < month && 0 < day && day ≤ daysIn year month then
    some ⟨year, month, day, hour, minute, second, nano⟩
  else none

end Moment

end QueryTree
