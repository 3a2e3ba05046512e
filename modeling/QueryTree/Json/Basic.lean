import QueryTree.Number.Shortest

/-! JSON texts as values, and how they are written.

Members of an object keep their order and may repeat a name. A number is whole when it is written without a
point or an exponent and fits 64 bits; any other number is a binary64 number.
-/

set_option autoImplicit false

namespace QueryTree

inductive Json where
  | null
  | bool (b : Bool)
  | integer (n : Int)
  | real (d : Double)
  | string (s : String)
  | array (items : List Json)
  | object (members : List (String × Json))
  deriving Repr, Inhabited

namespace Json

def hexDigit (n : Nat) : Char := (Nat.toDigits 16 n).headD '0'

def escapeChar (c : Char) : List Char :=
  match c with
  | '"' => ['\\', '"']
  | '\\' => ['\\', '\\']
  | '\n' => ['\\', 'n']
  | '\r' => ['\\', 'r']
  | '\t' => ['\\', 't']
  | '\x08' => ['\\', 'b']
  | '\x0c' => ['\\', 'f']
  | c =>
    if c.toNat < 0x20 then ['\\', 'u', '0', '0', hexDigit (c.toNat / 16), hexDigit (c.toNat % 16)] else [c]

def quote (s : String) : String := String.ofList ('"' :: s.toList.flatMap escapeChar ++ ['"'])

/-- Shortest digits: positional when the point lies within sixteen digits or at most five places before
them, with an exponent otherwise. A whole number keeps a zero place. -/
def renderReal (d : Double) : String :=
  if !d.isFinite then "null" else
  let (digits, exponent) := d.shortest .toEven
  let text := toString digits
  let point := (text.length : Int) + exponent
  let magnitude :=
    if digits = 0 then "0.0"
    else if 0 ≤ exponent ∧ point ≤ 16 then Double.positional digits exponent ++ ".0"
    else if -5 < point ∧ point ≤ 16 then Double.positional digits exponent
    else
      let places := if text.length = 1 then "" else "." ++ String.ofList (text.toList.drop 1)
      String.ofList (text.toList.take 1) ++ places ++ "e" ++ toString (point - 1)
  if d.isNegative then "-" ++ magnitude else magnitude

mutual

/-- The text without blanks. -/
def compress : Json → String
  | .null => "null"
  | .bool b => if b then "true" else "false"
  | .integer n => toString n
  | .real d => renderReal d
  | .string s => quote s
  | .array items => "[" ++ ",".intercalate (compressAll items) ++ "]"
  | .object members => "\x7b" ++ ",".intercalate (compressMembers members) ++ "\x7d"

def compressAll : List Json → List String
  | [] => []
  | item :: rest => compress item :: compressAll rest

def compressMembers : List (String × Json) → List String
  | [] => []
  | (name, value) :: rest => (quote name ++ ":" ++ compress value) :: compressMembers rest

end

def indentation (depth : Nat) : String := String.ofList (List.replicate (2 * depth) ' ')

/-- Lines between two brackets, one deeper than the brackets. -/
def bracketed (opening closing : String) (depth : Nat) (lines : List String) : String :=
  match lines with
  | [] => opening ++ closing
  | lines =>
    opening ++ "\n" ++ ",\n".intercalate (lines.map (indentation (depth + 1) ++ ·)) ++ "\n" ++
      indentation depth ++ closing

mutual

/-- The text with one item a line, two blanks a level. -/
def pretty (depth : Nat) : Json → String
  | .array items => bracketed "[" "]" depth (prettyAll (depth + 1) items)
  | .object members => bracketed "\x7b" "\x7d" depth (prettyMembers (depth + 1) members)
  | .null => "null"
  | .bool b => if b then "true" else "false"
  | .integer n => toString n
  | .real d => renderReal d
  | .string s => quote s

def prettyAll (depth : Nat) : List Json → List String
  | [] => []
  | item :: rest => pretty depth item :: prettyAll depth rest

def prettyMembers (depth : Nat) : List (String × Json) → List String
  | [] => []
  | (name, value) :: rest => (quote name ++ ": " ++ pretty depth value) :: prettyMembers depth rest

end

mutual

/-- How deep brackets nest. -/
def depth : Json → Nat
  | .array items => depthAll items + 1
  | .object members => depthMembers members + 1
  | _ => 0

def depthAll : List Json → Nat
  | [] => 0
  | item :: rest => max (depth item) (depthAll rest)

def depthMembers : List (String × Json) → Nat
  | [] => 0
  | (_, value) :: rest => max (depth value) (depthMembers rest)

end

/-- Members with one member a name, the last. -/
def lastMembers : List (String × Json) → List (String × Json)
  | [] => []
  | (name, value) :: rest =>
    if rest.any (·.1 == name) then lastMembers rest else (name, value) :: lastMembers rest

mutual

/-- No object repeats a name: of members with one name the last stands. -/
def withoutRepeats : Json → Json
  | .array items => .array (withoutRepeatsAll items)
  | .object members => .object (lastMembers (withoutRepeatsMembers members))
  | json => json

def withoutRepeatsAll : List Json → List Json
  | [] => []
  | item :: rest => withoutRepeats item :: withoutRepeatsAll rest

def withoutRepeatsMembers : List (String × Json) → List (String × Json)
  | [] => []
  | (name, value) :: rest => (name, withoutRepeats value) :: withoutRepeatsMembers rest

end

end Json

end QueryTree
