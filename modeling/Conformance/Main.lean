import Conformance.Command

/-!
# The program

Reads the environment and the files that the words name, runs the command, and prints what it says.
All decisions are made by `Command.run`.
-/

namespace Conformance

def readEnvironment : IO (List (String × String)) := do
  let found ← Settings.environmentNames.mapM fun name => do
    return (← IO.getEnv name).map fun value => (name, value)
  return found.filterMap id

def readFiles (words : List String) : IO (List (String × String)) := do
  let found ← words.mapM fun (word : String) => do
    try return some (word, ← IO.FS.readFile word) catch _ => return none
  return found.filterMap id

end Conformance

/-- Runs a command line. -/
def main (words : List String) : IO UInt32 := do
  let env ← Conformance.readEnvironment
  let contents ← Conformance.readFiles words
  let exit := Conformance.Command.run { env, files := fun path => contents.lookup path } words
  IO.print exit.output
  if let some crash := exit.crash then IO.eprintln crash.message
  return UInt32.ofNat exit.code
