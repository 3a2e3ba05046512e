import QueryTree.Json.Command
import QueryTree.Json.Query
import QueryTree.Json.Reader
import QueryTree.Session.Planner
import QueryTree.Toml.Settings

/-! The command line.

`format FILE` writes the command of a query and its parameters, and `passes` lists the passes. A file named
`-` is the standard input. `--config FILE` may stand anywhere, `--dialect NAME` and `--no-optimize` after
`format`.
-/

set_option autoImplicit false

namespace QueryTree

namespace CommandLine

inductive Request where
  | format (input : String) (dialect : Option DialectName) (optimize : Bool)
  | passes
  deriving DecidableEq, Repr, Inhabited

structure Invocation where
  config : Option String
  request : Request
  deriving DecidableEq, Repr, Inhabited

/-- One argument taken apart. -/
inductive Word where
  | plain (text : String)
  /-- An option, with the value an equals sign gives it. -/
  | option (name : String) (value : Option String)
  deriving DecidableEq, Repr

/-- A lone dash is no option. -/
def word (text : String) : Word :=
  match text.toList with
  | '-' :: '-' :: rest =>
    match rest.dropWhile (· ≠ '=') with
    | '=' :: value => .option (String.ofList (rest.takeWhile (· ≠ '='))) (some (String.ofList value))
    | _ => .option (String.ofList rest) none
  | '-' :: c :: rest => .option (String.ofList ('-' :: c :: rest)) none
  | _ => .plain text

/-- The value of an option, from itself or from the next argument, and the arguments after it. -/
def optionValue? (given : Option String) (rest : List String) : Option (String × List String) :=
  match given, rest with
  | some value, rest => some (value, rest)
  | none, next :: rest =>
    match word next with
    | .plain text => some (text, rest)
    | .option .. => none
  | none, [] => none

/-- A path is not empty. -/
def path? (text : String) : Option String := if text.isEmpty then none else some text

/-- The names the dialects have on the command line. -/
def dialectWords : List (String × DialectName) :=
  [("postgres", .postgres), ("sqlite", .sqlite), ("sql-server", .sqlServer)]

/-- What has been read of the arguments after a subcommand. -/
structure Given where
  config : Option String := none
  input : Option String := none
  dialect : Option DialectName := none
  noOptimize : Bool := false
  deriving DecidableEq, Repr, Inhabited

namespace Given

def addInput (g : Given) (text : String) : Option Given := do
  let input ← path? text
  if g.input.isSome then none else some { g with input := some input }

def addConfig (g : Given) (text : String) : Option Given := do
  let config ← path? text
  if g.config.isSome then none else some { g with config := some config }

def addDialect (g : Given) (text : String) : Option Given := do
  let (_, dialect) ← dialectWords.find? (·.1 == text)
  if g.dialect.isSome then none else some { g with dialect := some dialect }

end Given

/-- The arguments of `format`, or those of `passes`, which takes the configuration alone. -/
def given? (format : Bool) : Nat → Given → List String → Option Given
  | _, g, [] => some g
  | 0, _, _ => none
  | fuel + 1, g, text :: rest =>
    match word text with
    | .plain text => if format then (g.addInput text).bind (given? format fuel · rest) else none
    | .option "config" value => do
      let (value, rest) ← optionValue? value rest
      given? format fuel (← g.addConfig value) rest
    | .option "" none =>
      if format then rest.foldlM Given.addInput g else if rest.isEmpty then some g else none
    | .option "dialect" value => do
      if format then
        let (value, rest) ← optionValue? value rest
        given? format fuel (← g.addDialect value) rest
      else none
    | .option "no-optimize" none =>
      if format && !g.noOptimize then given? format fuel { g with noOptimize := true } rest else none
    | .option .. => none

def request? (format : Bool) (outer : Option String) (rest : List String) : Option Invocation := do
  let g ← given? format rest.length {} rest
  let config := g.config <|> outer
  if format then return { config, request := .format (← g.input) g.dialect (!g.noOptimize) }
  else return { config, request := .passes }

/-- The arguments up to the subcommand. A configuration given after it counts more. -/
def parseWith? : Nat → Option String → List String → Option Invocation
  | _, _, [] => none
  | 0, _, _ => none
  | fuel + 1, outer, text :: rest =>
    match word text with
    | .plain "format" => request? true outer rest
    | .plain "passes" => request? false outer rest
    | .option "config" value => do
      let (value, rest) ← optionValue? value rest
      let config ← path? value
      if outer.isSome then none else parseWith? fuel (some config) rest
    | _ => none

/-- None for arguments that cannot be understood. -/
def parse? (arguments : List String) : Option Invocation := parseWith? arguments.length none arguments

/-- What became of reading a file. -/
inductive Contents where
  | missing
  | unreadable
  | text (s : String)
  deriving DecidableEq, Repr, Inhabited

/-- How a run ends, and what it printed. -/
structure Outcome where
  code : UInt32
  output : String := ""
  deriving DecidableEq, Repr, Inhabited

def failure : Outcome := { code := 1 }

def misuse : Outcome := { code := 2 }

/-- A file that is not there leaves everything as it is by default. -/
def settings? : Contents → Option Settings
  | .missing => some {}
  | .unreadable => none
  | .text s => Settings.parse? s

/-- A query, or a tree that is one without parameters. -/
def query? (text : String) : Option BoundQuery := do
  let json ← Json.parseWithin? 128 text
  Json.boundQuery? json <|> (Json.node? json).map fun root => { root := root }

/-- The values of a command where they are all known, and its slots otherwise. -/
def parameters (f : Formatted) (named : Named) : Json :=
  match f.bind [] named with
  | .ok command => .array (command.parameters.map TypedValue.toJson)
  | .error _ => .array (f.slots.map Slot.toJson)

def formatQuery (s : Settings) (optimize : Bool) (q : BoundQuery) : Outcome :=
  let planner : Planner :=
    { dialect := s.shipped.dialect, pipeline := if optimize then some s.pipeline else none }
  match planner.dialect.format (planner.settle q.root) with
  | .ok f => { code := 0, output := f.text ++ "\n" ++ (parameters f q.parameters).pretty 0 ++ "\n" }
  | .error _ => failure

/-- A name in a column of its own, and what the pass does. -/
def passLine (p : Pass) : String :=
  p.name ++ String.ofList (List.replicate (28 - p.name.length) ' ') ++ " " ++ p.description ++ "\n"

/-- A run, given the configuration and how the input is read. -/
def run (request : Request) (config input : Contents) : Outcome :=
  match settings? config with
  | none => failure
  | some s =>
    match request with
    | .passes => { code := 0, output := String.join (s.pipeline.passes.map passLine) }
    | .format _ dialect optimize =>
      match input with
      | .text text =>
        match query? text with
        | some q => formatQuery { s with dialect := dialect.getD s.dialect } optimize q
        | none => failure
      | _ => failure

end CommandLine

end QueryTree
