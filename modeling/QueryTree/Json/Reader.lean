import QueryTree.Json.Basic
import QueryTree.Number.Reader
import QueryTree.Number.Whole

/-! Reading JSON text.

The whole text is one value, blanks aside. A number with a point or an exponent
is its digits as a 64-bit whole number, later digits dropped, rounded and then times or over a power of ten,
rounded again; one beyond the largest finite number is refused.
-/

set_option autoImplicit false

namespace QueryTree.Json.Reader

def skipBlanks (cs : List Char) : List Char :=
  cs.dropWhile fun c => c = ' ' || c = '\n' || c = '\r' || c = '\t'

/-- The largest whole number a number's digits may make. -/
def digitsLimit : Nat := maxSize

/-- Take digits while they fit; how many were taken, and the digits that are left. -/
def takeDigits : Nat → Nat → List Char → Nat × Nat × List Char
  | value, taken, [] => (value, taken, [])
  | value, taken, c :: rest =>
    let next := value * 10 + (c.toNat - 48)
    if c.isDigit && next ≤ digitsLimit then takeDigits next (taken + 1) rest else (value, taken, c :: rest)

/-- Digits times a power of ten, in steps no larger than a finite number; nothing beyond the finite
numbers. -/
def scaleReal : Nat → Double → Int → Option Double
  | 0, _, _ => some .zero
  | fuel + 1, d, exponent =>
    if exponent.natAbs ≤ 308 then
      let power := Double.ofDecimal 1 exponent.natAbs
      if 0 ≤ exponent then
        let product := d.mul power
        if product.isInfinite then none else some product
      else some (d.div power)
    else if d = .zero then some d
    else if 0 ≤ exponent then none
    else scaleReal fuel (d.div (Double.ofDecimal 1 308)) (exponent + 308)

/-- An exponent is held within 32 bits. -/
def exponentLimit : Int := 2147483647

def signed (negative : Bool) (d : Double) : Json := .real (if negative then d.negate else d)

/-- A real number of the given digits and power of ten, with the rest of the text. -/
def finishReal (negative : Bool) (digits : Nat) (exponent : Int) (rest : List Char) :
    Option (Json × List Char) :=
  match rest with
  | c :: rest =>
    if c = 'e' ∨ c = 'E' then
      let (down, rest) := match rest with
        | '-' :: rest => (true, rest)
        | '+' :: rest => (false, rest)
        | rest => (false, rest)
      let places := rest.takeWhile Char.isDigit
      if places.isEmpty then none else
      let amount : Int := Double.digitsValue places
      let rest := rest.dropWhile Char.isDigit
      if exponentLimit < amount then
        if digits = 0 ∨ down then some (signed negative .zero, rest) else none
      else
        let total := if down then exponent - amount else exponent + amount
        (scaleReal 8 (Double.ofInt digits) (max (-exponentLimit - 1) (min exponentLimit total))).map
          fun d => (signed negative d, rest)
    else
      (scaleReal 8 (Double.ofInt digits) exponent).map fun d => (signed negative d, c :: rest)
  | [] => (scaleReal 8 (Double.ofInt digits) exponent).map fun d => (signed negative d, [])

/-- A number after its sign. -/
def number? (negative : Bool) (cs : List Char) : Option (Json × List Char) :=
  match cs with
  | [] => none
  | first :: after =>
    if !first.isDigit then none
    else if first = '0' ∧ (after.head?.map Char.isDigit).getD false then none
    else
      let (digits, _, rest) := takeDigits 0 0 cs
      let dropped := (rest.takeWhile Char.isDigit).length
      let rest := rest.drop dropped
      match rest with
      | '.' :: places =>
        if !(places.head?.map Char.isDigit).getD false then none
        else
          let (digits, taken, rest) := takeDigits digits 0 places
          finishReal negative digits ((dropped : Int) - taken) (rest.dropWhile Char.isDigit)
      | rest =>
        let exponential := match rest with
          | c :: _ => c = 'e' || c = 'E'
          | [] => false
        if exponential || 0 < dropped then finishReal negative digits dropped rest
        else if !negative then some (.integer digits, rest)
        else if digits = 0 ∨ !fitsInt64 (-digits) then some (signed true (Double.ofInt digits), rest)
        else some (.integer (-digits), rest)

def hexValue? (c : Char) : Option Nat :=
  let n := c.toNat
  if c.isDigit then some (n - 48)
  else if 97 ≤ n ∧ n ≤ 102 then some (n - 87)
  else if 65 ≤ n ∧ n ≤ 70 then some (n - 55)
  else none

/-- Four hexadecimal digits. -/
def unit? : List Char → Option (Nat × List Char)
  | a :: b :: c :: d :: rest => do
    let n := (((← hexValue? a) * 16 + (← hexValue? b)) * 16 + (← hexValue? c)) * 16 + (← hexValue? d)
    some (n, rest)
  | _ => none

/-- A character given by one 16-bit unit, or by two that pair. -/
def escapedUnit? (cs : List Char) : Option (Char × List Char) := do
  let (high, rest) ← unit? cs
  if 0xdc00 ≤ high ∧ high ≤ 0xdfff then none
  else if 0xd800 ≤ high ∧ high ≤ 0xdbff then
    match rest with
    | '\\' :: 'u' :: rest =>
      let (low, rest) ← unit? rest
      if 0xdc00 ≤ low ∧ low ≤ 0xdfff then
        some (Char.ofNat (0x10000 + (high - 0xd800) * 0x400 + (low - 0xdc00)), rest)
      else none
    | _ => none
  else some (Char.ofNat high, rest)

/-- The characters of a string after its opening quote, and the text after its closing quote. -/
def string? : Nat → List Char → List Char → Option (String × List Char)
  | 0, _, _ => none
  | fuel + 1, done, cs =>
    match cs with
    | [] => none
    | '"' :: rest => some (String.ofList done.reverse, rest)
    | '\\' :: c :: rest =>
      match c with
      | '"' | '\\' | '/' => string? fuel (c :: done) rest
      | 'b' => string? fuel ('\x08' :: done) rest
      | 'f' => string? fuel ('\x0c' :: done) rest
      | 'n' => string? fuel ('\n' :: done) rest
      | 'r' => string? fuel ('\r' :: done) rest
      | 't' => string? fuel ('\t' :: done) rest
      | 'u' =>
        match escapedUnit? rest with
        | some (c, rest) => string? fuel (c :: done) rest
        | none => none
      | _ => none
    | c :: rest => if c.toNat < 0x20 then none else string? fuel (c :: done) rest

def word? (word : List Char) (json : Json) (cs : List Char) : Option (Json × List Char) :=
  if word.isPrefixOf cs then some (json, cs.drop word.length) else none

mutual

/-- One value, `depth` levels of brackets still allowed. -/
def value? : Nat → Nat → List Char → Option (Json × List Char)
  | 0, _, _ => none
  | fuel + 1, depth, cs =>
    match skipBlanks cs with
    | [] => none
    | '"' :: rest => (string? (rest.length + 1) [] rest).map fun (s, rest) => (.string s, rest)
    | '[' :: rest =>
      if depth ≤ 1 then none else
      match skipBlanks rest with
      | ']' :: rest => some (.array [], rest)
      | rest => items? fuel (depth - 1) [] rest
    | '{' :: rest =>
      if depth ≤ 1 then none else
      match skipBlanks rest with
      | '}' :: rest => some (.object [], rest)
      | rest => members? fuel (depth - 1) [] rest
    | '-' :: rest => number? true rest
    | 'n' :: rest => word? ['u', 'l', 'l'] .null rest
    | 't' :: rest => word? ['r', 'u', 'e'] (.bool true) rest
    | 'f' :: rest => word? ['a', 'l', 's', 'e'] (.bool false) rest
    | cs => number? false cs

def items? : Nat → Nat → List Json → List Char → Option (Json × List Char)
  | 0, _, _, _ => none
  | fuel + 1, depth, done, cs =>
    match value? fuel depth cs with
    | none => none
    | some (item, rest) =>
      match skipBlanks rest with
      | ',' :: rest => items? fuel depth (item :: done) rest
      | ']' :: rest => some (.array (item :: done).reverse, rest)
      | _ => none

def members? : Nat → Nat → List (String × Json) → List Char → Option (Json × List Char)
  | 0, _, _, _ => none
  | fuel + 1, depth, done, cs =>
    match skipBlanks cs with
    | '"' :: rest =>
      match string? (rest.length + 1) [] rest with
      | none => none
      | some (name, rest) =>
        match skipBlanks rest with
        | ':' :: rest =>
          match value? fuel depth rest with
          | none => none
          | some (value, rest) =>
            match skipBlanks rest with
            | ',' :: rest => members? fuel depth ((name, value) :: done) rest
            | '}' :: rest => some (.object ((name, value) :: done).reverse, rest)
            | _ => none
        | _ => none
    | _ => none

end

end Reader

/-- The value of a whole text that nests brackets less than `depth` deep. -/
def parseWithin? (depth : Nat) (text : String) : Option Json :=
  let cs := text.toList
  match Reader.value? (2 * cs.length + 2) depth cs with
  | some (json, rest) => if (Reader.skipBlanks rest).isEmpty then some json else none
  | none => none

/-- The value of a whole text. -/
def parse? (text : String) : Option Json := parseWithin? (text.length + 2) text

end QueryTree.Json
