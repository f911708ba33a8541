import CursorPaging.CommandLine.Run

/-!
# The program

The outer layer of the command line: it takes the arguments, the environment and the files as they
are, prints what a run prints, and exits with its code.

* `main`.
-/

namespace CursorPaging

/-- The environment variables, as the system lists them. -/
def readEnvironment : IO (List (String × String)) := do
  let text ← try IO.FS.readFile "/proc/self/environ" catch _ => pure ""
  return (pieces (Char.ofNat 0) text.toList).filterMap fun entry =>
    let name := entry.takeWhile (· ≠ '=')
    if name.length < entry.length then
      some (String.ofList name, String.ofList (entry.drop (name.length + 1)))
    else none

/-- The text of a file, if it can be read. -/
def readText (name : String) : IO (Option String) := do
  try return some (← IO.FS.readFile name) catch _ => return none

/-- The files that a path may mean, with their texts. -/
def readCandidates (path : String) : IO (List (String × String)) := do
  let mut found := []
  for name in Settings.candidates path do
    if let some text ← readText name then found := (name, text) :: found
  return found

end CursorPaging

/-- Run the command line. -/
def main (arguments : List String) : IO UInt32 := do
  let environment ← CursorPaging.readEnvironment
  let path := match CursorPaging.Arguments.parse arguments with
    | .ok a => a.confPath
    | .error _ => ""
  let found ← CursorPaging.readCandidates path
  match CursorPaging.CommandLine.run arguments (fun name => found.lookup name) environment with
  | none => return 1
  | some outcome =>
    IO.print outcome.output
    if let some complaint := outcome.complaint? then IO.eprintln complaint
    return UInt32.ofNat outcome.exitCode
