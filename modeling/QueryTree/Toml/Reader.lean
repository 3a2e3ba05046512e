import QueryTree.Json.Reader
import QueryTree.Moment
import QueryTree.Toml.Document

/-! Reading TOML.

A document is read as the JSON object of its root table. Dates and times, which JSON has none of, become
objects that hold their text. Brackets nest less than `depthLimit` deep.
-/

set_option autoImplicit false

namespace QueryTree.Toml

abbrev Parse (α : Type) := List Char → Option (α × List Char)

def depthLimit : Nat := 80

def isBlank (c : Char) : Bool := c = ' ' || c = '\t'

def skipBlanks (cs : List Char) : List Char := cs.dropWhile isBlank

/-- Shows in a line: no control character but the tab. -/
def isPlain (c : Char) : Bool := c = '\t' || (0x20 ≤ c.toNat && c.toNat ≠ 0x7f)

/-- After the end of a line. -/
def newline? : List Char → Option (List Char)
  | '\n' :: rest => some rest
  | '\x0d' :: '\n' :: rest => some rest
  | _ => none

/-- To the end of the line, over blanks and a comment. -/
def endLine? (cs : List Char) : Option (List Char) :=
  let rest := match skipBlanks cs with
    | '#' :: rest => rest.dropWhile isPlain
    | rest => rest
  if rest.isEmpty then some [] else newline? rest

/-- Over blanks, ends of lines and comments. -/
def skipLines (comment : Bool) : List Char → List Char
  | [] => []
  | '\n' :: rest => skipLines false rest
  | '\x0d' :: '\n' :: rest => skipLines false rest
  | c :: rest =>
    if comment then if isPlain c then skipLines true rest else c :: rest
    else if isBlank c then skipLines false rest
    else if c = '#' then skipLines true rest
    else c :: rest

/-- The character of a number that is one. -/
def scalar? (digits : List Char) : Option Char := do
  let n ← digits.foldlM (fun n c => (Json.Reader.hexValue? c).map (16 * n + ·)) 0
  if n.isValidChar then some (Char.ofNat n) else none

/-- The character an escape stands for, after its backslash. -/
def escaped? : Parse Char
  | 'b' :: rest => some ('\x08', rest)
  | 't' :: rest => some ('\t', rest)
  | 'n' :: rest => some ('\n', rest)
  | 'f' :: rest => some ('\x0c', rest)
  | 'r' :: rest => some ('\x0d', rest)
  | '"' :: rest => some ('"', rest)
  | '\\' :: rest => some ('\\', rest)
  | 'u' :: rest => if rest.length < 4 then none else (scalar? (rest.take 4)).map (·, rest.drop 4)
  | 'U' :: rest => if rest.length < 8 then none else (scalar? (rest.take 8)).map (·, rest.drop 8)
  | _ => none

/-- A string of one line after its opening quote. -/
def basic? : Nat → List Char → Parse String
  | 0, _, _ => none
  | _ + 1, done, '"' :: rest => some (String.ofList done.reverse, rest)
  | fuel + 1, done, '\\' :: rest => do
    let (c, rest) ← escaped? rest
    basic? fuel (c :: done) rest
  | fuel + 1, done, c :: rest => if isPlain c then basic? fuel (c :: done) rest else none
  | _ + 1, _, [] => none

/-- A literal string of one line after its opening quote. -/
def literal? (cs : List Char) : Option (String × List Char) :=
  match cs.dropWhile fun c => c ≠ '\'' && isPlain c with
  | '\'' :: rest => some (String.ofList (cs.takeWhile fun c => c ≠ '\'' && isPlain c), rest)
  | _ => none

/-- Three closing quotes, before which one or two may belong to the string. -/
def closing? (quote : Char) : List Char → Option (List Char × List Char)
  | a :: b :: c :: rest =>
    if a = quote ∧ b = quote ∧ c = quote then
      let more := (rest.takeWhile (· = quote)).length
      if more ≤ 2 then some (List.replicate more quote, rest.drop more) else none
    else none
  | _ => none

def opensTriple (quote : Char) (cs : List Char) : Bool := [quote, quote, quote].isPrefixOf cs

/-- Over blanks and ends of lines. -/
def skipEmpty : List Char → List Char
  | '\n' :: rest => skipEmpty rest
  | '\x0d' :: '\n' :: rest => skipEmpty rest
  | c :: rest => if isBlank c then skipEmpty rest else c :: rest
  | [] => []

/-- A backslash at the end of a line joins it to the next text. -/
def joinLines? (cs : List Char) : Option (List Char) := (newline? (skipBlanks cs)).map skipEmpty

/-- A string of several lines after its opening quotes and the end of their line. -/
def lines? (quote : Char) : Nat → List Char → Parse String
  | 0, _, _ => none
  | fuel + 1, done, cs =>
    if opensTriple quote cs then
      (closing? quote cs).map fun (last, rest) => (String.ofList (done.reverse ++ last), rest)
    else match newline? cs, cs with
      | some rest, _ => lines? quote fuel ('\n' :: done) rest
      | none, [] => none
      | none, '\\' :: rest =>
        if quote = '\'' then lines? quote fuel ('\\' :: done) rest
        else match joinLines? rest with
          | some rest => lines? quote fuel done rest
          | none => do
            let (c, rest) ← escaped? rest
            lines? quote fuel (c :: done) rest
      | none, c :: rest => if isPlain c then lines? quote fuel (c :: done) rest else none

/-- A string of either quote and any number of lines. -/
def string? (quote : Char) (cs : List Char) : Option (String × List Char) :=
  if opensTriple quote cs then
    let body := cs.drop 3
    lines? quote (body.length + 1) [] ((newline? body).getD body)
  else if quote = '\'' then literal? cs.tail
  else basic? (cs.length + 1) [] cs.tail

def isBareKey (c : Char) : Bool := c.isAlphanum || c = '-' || c = '_'

def simpleKey? (cs : List Char) : Option (String × List Char) :=
  match cs with
  | '"' :: rest => basic? (rest.length + 1) [] rest
  | '\'' :: rest => literal? rest
  | cs =>
    let key := cs.takeWhile isBareKey
    if key.isEmpty then none else some (String.ofList key, cs.drop key.length)

/-- Keys with dots between them, blanks around each. -/
def keys? : Nat → Parse (List String)
  | 0, _ => none
  | fuel + 1, cs => do
    let (key, rest) ← simpleKey? (skipBlanks cs)
    match skipBlanks rest with
    | '.' :: rest =>
      let (keys, rest) ← keys? fuel rest
      return (key :: keys, rest)
    | rest => return ([key], rest)

/-- The tables a dotted key leads through, and the key in the last of them. -/
def path? (cs : List Char) : Option ((List String × String) × List Char) := do
  let (keys, rest) ← keys? (cs.length + 1) cs
  if depthLimit ≤ keys.length then none
  else keys.getLast?.map fun key => ((keys.dropLast, key), rest)

/-- Digits, single underscores between them allowed. -/
def digits? (isDigit : Char → Bool) : Parse (List Char)
  | [] => none
  | c :: rest => if isDigit c then some (go [c] rest) else none
where
  go (done : List Char) : List Char → List Char × List Char
    | '_' :: c :: rest => if isDigit c then go (c :: done) rest else (done.reverse, '_' :: c :: rest)
    | c :: rest => if isDigit c then go (c :: done) rest else (done.reverse, c :: rest)
    | [] => (done.reverse, [])

def inBase (base : Nat) (digits : List Char) : Nat :=
  digits.foldl (fun n c => base * n + (Json.Reader.hexValue? c).getD 0) 0

def wholeNumber? (n : Int) : Option Json := if fitsInt64 n then some (.integer n) else none

/-- A whole number in another base than ten. -/
def based? (base : Nat) (cs : List Char) : Option (Json × List Char) := do
  let isDigit (c : Char) : Bool := ((Json.Reader.hexValue? c).map fun n => decide (n < base)).getD false
  let (digits, rest) ← digits? isDigit cs
  return (← wholeNumber? (inBase base digits), rest)

/-- A sign, a plus sign saying nothing. -/
def splitSign : List Char → List Char × List Char
  | '-' :: rest => (['-'], rest)
  | '+' :: rest => ([], rest)
  | rest => ([], rest)

/-- Decimal digits without a leading zero. -/
def decimal? (cs : List Char) : Option (List Char × List Char) :=
  match cs with
  | '0' :: rest => some (['0'], rest)
  | cs => digits? Char.isDigit cs

/-- A point and the digits after it, if there is a point. -/
def places? : Parse (List Char)
  | '.' :: rest => (digits? Char.isDigit rest).map fun (digits, rest) => ('.' :: digits, rest)
  | rest => some ([], rest)

def exponent? : Parse (List Char)
  | c :: rest =>
    if c = 'e' || c = 'E' then
      let (sign, rest) := splitSign rest
      (digits? Char.isDigit rest).map fun (digits, rest) => ('e' :: sign ++ digits, rest)
    else some ([], c :: rest)
  | [] => some ([], [])

/-- A number with a point or an exponent. -/
def real? (cs : List Char) : Option (Json × List Char) := do
  let (sign, rest) := splitSign cs
  let (whole, rest) ← decimal? rest
  let (places, rest) ← places? rest
  let (exponent, rest) ← exponent? rest
  if places.isEmpty && exponent.isEmpty then none
  else
    let d ← Double.parse? (String.ofList (sign ++ whole ++ places ++ exponent))
    if d = .infinity then none else some (.real d, rest)

def word? (word : String) (json : Json) (cs : List Char) : Option (Json × List Char) :=
  if word.toList.isPrefixOf cs then some (json, cs.drop word.length) else none

def special? (cs : List Char) : Option (Json × List Char) :=
  let (sign, rest) := splitSign cs
  let negative := !sign.isEmpty
  let signed (d : Double) : Json := .real (if negative then d.negate else d)
  word? "inf" (signed .infinity) rest <|> word? "nan" (signed .nan) rest

def integer? (cs : List Char) : Option (Json × List Char) :=
  match cs with
  | '0' :: 'x' :: rest => based? 16 rest
  | '0' :: 'o' :: rest => based? 8 rest
  | '0' :: 'b' :: rest => based? 2 rest
  | cs => do
    let (sign, rest) := splitSign cs
    let (digits, rest) ← decimal? rest
    let n : Int := inBase 10 digits
    return (← wholeNumber? (if sign.isEmpty then n else -n), rest)

/-- A field of a date or time: so many digits, with a value in a range. -/
def field? (width least most : Nat) (cs : List Char) : Option (Nat × List Char) :=
  let digits := cs.take width
  let n := inBase 10 digits
  let fits := digits.length = width && digits.all Char.isDigit && least ≤ n && n ≤ most
  if fits then some (n, cs.drop width) else none

def mark? (mark : Char) : List Char → Option (List Char)
  | c :: rest => if c = mark then some rest else none
  | [] => none

def date? (cs : List Char) : Option (List Char) := do
  let (year, rest) ← field? 4 0 9999 cs
  let (month, rest) ← field? 2 1 12 (← mark? '-' rest)
  let (_, rest) ← field? 2 1 (Moment.daysIn year month) (← mark? '-' rest)
  return rest

def time? (cs : List Char) : Option (List Char) := do
  let (_, rest) ← field? 2 0 23 cs
  let (_, rest) ← field? 2 0 59 (← mark? ':' rest)
  let (_, rest) ← field? 2 0 60 (← mark? ':' rest)
  match rest with
  | '.' :: c :: more => if c.isDigit then some (more.dropWhile Char.isDigit) else some rest
  | rest => some rest

def offset? (cs : List Char) : Option (List Char) :=
  match cs with
  | 'Z' :: rest | 'z' :: rest => some rest
  | '+' :: rest | '-' :: rest => do
    let (_, rest) ← field? 2 0 23 rest
    let (_, rest) ← field? 2 0 59 (← mark? ':' rest)
    return rest
  | _ => none

/-- A time after a date, and its offset. -/
def timeOfDate (cs : List Char) : List Char :=
  match cs with
  | c :: rest =>
    if c = 'T' || c = 't' || c = ' ' then
      match time? rest with
      | some rest => (offset? rest).getD rest
      | none => cs
    else cs
  | [] => []

/-- A date, a time, or both. -/
def moment? (cs : List Char) : Option (Json × List Char) := do
  let rest ← (date? cs).map timeOfDate <|> time? cs
  return (.object [("datetime", .string (String.ofList (cs.take (cs.length - rest.length))))], rest)

mutual

def value? : Nat → Nat → Parse Json
  | 0, _, _ => none
  | fuel + 1, depth, cs =>
    match cs with
    | '"' :: _ => (string? '"' cs).map fun (s, rest) => (.string s, rest)
    | '\'' :: _ => (string? '\'' cs).map fun (s, rest) => (.string s, rest)
    | '[' :: rest => if depth ≤ 1 then none else items? fuel (depth - 1) [] rest
    | '{' :: rest =>
      if depth ≤ 1 then none
      else match skipBlanks rest with
        | '}' :: rest => some (.object [], rest)
        | rest => pairs? fuel (depth - 1) [] rest
    | 't' :: _ => word? "true" (.bool true) cs
    | 'f' :: _ => word? "false" (.bool false) cs
    | _ => moment? cs <|> real? cs <|> special? cs <|> integer? cs

/-- Items up to the closing bracket, the last of which a comma may follow. -/
def items? : Nat → Nat → List Json → Parse Json
  | 0, _, _, _ => none
  | fuel + 1, depth, done, cs =>
    match skipLines false cs with
    | ']' :: rest => some (.array done.reverse, rest)
    | cs => do
      let (item, rest) ← value? fuel depth cs
      match skipLines false rest with
      | ',' :: rest => items? fuel depth (item :: done) rest
      | ']' :: rest => return (.array (item :: done).reverse, rest)
      | _ => none

/-- Pairs of an inline table, one at least. -/
def pairs? : Nat → Nat → Tables → Parse Json
  | 0, _, _, _ => none
  | fuel + 1, depth, done, cs => do
    let ((path, key), rest) ← path? cs
    let rest ← mark? '=' rest
    let (value, rest) ← value? fuel depth (skipBlanks rest)
    let done ← Tables.assign? path key value .stated done
    match skipBlanks rest with
    | ',' :: rest => pairs? fuel depth done rest
    | '}' :: rest => return (Tree.toJson (.table .stated done), rest)
    | _ => none

end

/-- A document up to a line: its tables, and where keys go. -/
structure Draft where
  root : Tables := []
  path : List String := []

namespace Draft

/-- A header between brackets, after the opening ones. -/
def header? (d : Draft) (item : Bool) (cs : List Char) : Option (Draft × List Char) := do
  let ((path, key), rest) ← path? cs
  let rest ← mark? ']' rest
  let rest ← if item then mark? ']' rest else some rest
  let root ← if item then d.root.stateItem? path key else d.root.state? path key
  return ({ root, path := path ++ [key] }, ← endLine? rest)

def pair? (d : Draft) (cs : List Char) : Option (Draft × List Char) := do
  let ((path, key), rest) ← path? cs
  let rest ← mark? '=' rest
  let (value, rest) ← value? (2 * cs.length + 2) depthLimit (skipBlanks rest)
  let root ← Tables.at? false (Tables.assign? path key value) d.path .stated d.root
  return ({ d with root }, ← endLine? rest)

def line? (d : Draft) (cs : List Char) : Option (Draft × List Char) :=
  match skipBlanks cs with
  | '[' :: '[' :: rest => d.header? true rest
  | '[' :: rest => d.header? false rest
  | rest =>
    match endLine? rest with
    | some rest => some (d, rest)
    | none => d.pair? rest

/-- The remaining lines. -/
def lines? : Nat → Draft → List Char → Option Draft
  | _, d, [] => some d
  | 0, _, _ => none
  | fuel + 1, d, cs => do
    let (d, rest) ← d.line? cs
    lines? fuel d rest

end Draft

/-- The root table of a document. -/
def parse? (text : String) : Option (List (String × Json)) :=
  let cs := match text.toList with
    | '\ufeff' :: rest => rest
    | cs => cs
  (Draft.lines? (cs.length + 1) {} cs).map fun d => Tree.membersJson d.root

end QueryTree.Toml
