import MarkupNesting.CommandLine

/-! The program: it reads what the arguments name and writes what the command line leaves behind. -/

namespace MarkupNesting.CommandLine

/-- The arguments that may name files. -/
def namedFiles (args : List String) : List String :=
  match readArguments {} args with
  | .analyze o => o.files
  | _ => []

def readFile (path : String) : IO (Option ByteArray) := do
  try return some (← IO.FS.readBinFile path)
  catch _ => return none

def surroundings (args : List String) : IO Surroundings := do
  let names := namedFiles args
  let input ← if names.isEmpty then (← IO.getStdin).readBinToEnd else pure .empty
  let files ← names.mapM fun n => return (n, ← readFile n)
  return ⟨← IO.getEnv "MARKUP_DEPTH_DIALECT", input, fun n => (files.lookup n).join⟩

end MarkupNesting.CommandLine

open MarkupNesting CommandLine in
def main (args : List String) : IO UInt32 := do
  let outcome := run (← surroundings args) args
  match outcome.error with
  | some e => IO.eprintln ("\x1b[31mError:\x1b[0m " ++ e)
  | none => IO.print outcome.output
  return outcome.exit.toUInt32
