import FlowClass.Command.Compile

/-!
# The program

Runs the command on the files of the system.
-/

namespace FlowClass.Command

/-- The file operations of the system. -/
def systemDisk : Disk IO where
  read path := do
    try return some (← IO.FS.readFile path) catch _ => return none
  isDir path := do
    try (← IO.FS.realPath path).isDir catch _ => return false
  makeDir path := do
    try
      IO.FS.createDir path
      return .ok ()
    catch
    | .noFileOrDirectory .. => return .error .missing
    | .alreadyExists .. => return .error .taken
    | _ => return .error .refused
  write path text := do
    try
      IO.FS.writeFile path text
      return true
    catch _ => return false

end FlowClass.Command

open FlowClass.Command in
def main (args : List String) : IO UInt32 := do
  let outcome ← run systemDisk .lastFirst args
  outcome.summary.forM IO.println
  outcome.errors.forM IO.eprintln
  return outcome.exit
