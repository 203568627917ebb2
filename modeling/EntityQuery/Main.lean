import EntityQuery.CommandLine.Run

/-!
# The program
-/

namespace EntityQuery.CommandLine

/-- How the program is called. -/
def usageText : String :=
  "usage: [--config FILE] [--format text|json] COMMAND\n" ++
  "  url --schema FILE --query FILE --base URL\n" ++
  "  run --schema FILE --query FILE --records FILE [--local]\n" ++
  "  index-schema --schema FILE --query FILE\n"

/-- The text of a file, or the reason why there is none. -/
def readFile (path : String) : IO (Except String String) := do
  match ← (IO.FS.readFile path).toBaseIO with
  | .ok text => return .ok text
  | .error reason => return .error (toString reason)

end EntityQuery.CommandLine

open EntityQuery.CommandLine in
/-- Run the program: nothing went wrong, it stopped, or the arguments make no sense. -/
def main (arguments : List String) : IO UInt32 := do
  match ← run readFile arguments with
  | .printed text =>
    IO.print text
    return 0
  | .failed failure =>
    IO.eprintln ("error: " ++ failure.message)
    return 1
  | .usage =>
    IO.eprint usageText
    return 2
