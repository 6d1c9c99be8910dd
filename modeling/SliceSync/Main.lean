import SliceSync.CommandLine
/-!
# The program

Reads the files that the arguments name, runs the command line and prints how it ends.
-/

open SliceSync

/-- The text of a file, if it can be read. -/
def readText (path : String) : IO (Option String) := do
  try
    return some (← IO.FS.readFile path)
  catch _ =>
    return none

def readNamed (args : List String) : IO (List (String × Option String)) :=
  match CommandLine.read args with
  | .ok invocation => invocation.files.mapM fun path => do return (path, ← readText path)
  | .error _ => return []

/-- Runs the command line on the files of the file system. -/
def main (args : List String) : IO UInt32 := do
  let texts ← readNamed args
  let ending := CommandLine.run args fun path => (texts.find? (·.1 = path)).bind (·.2)
  IO.print ending.output
  match ending with
  | .printed _ => pure ()
  | .failed message => IO.eprintln ("Error: " ++ message)
  | .misused _ => IO.eprintln "Usage: tether-replay [OPTIONS] <SCENARIO>"
  return ending.code.toUInt32
