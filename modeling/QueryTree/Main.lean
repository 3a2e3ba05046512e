import QueryTree.CommandLine

/-! The program: reads its files, runs, and prints. -/

set_option autoImplicit false

open QueryTree CommandLine

def readContents (path : String) : IO Contents := do
  try
    return .text (← IO.FS.readFile path)
  catch
    | .noFileOrDirectory .. => return .missing
    | _ => return .unreadable

def readInput (path : String) : IO Contents := do
  if path = "-" then return .text (← (← IO.getStdin).readToEnd) else readContents path

def main (arguments : List String) : IO UInt32 := do
  match parse? arguments with
  | none =>
    IO.eprintln "usage: [--config FILE] (format FILE [--dialect NAME] [--no-optimize] | passes)"
    return misuse.code
  | some invocation =>
    let config ← match invocation.config with
      | some path => readContents path
      | none => pure .missing
    let input ← match invocation.request with
      | .format path _ _ => readInput path
      | .passes => pure .missing
    let outcome := run invocation.request config input
    IO.print outcome.output
    return outcome.code
