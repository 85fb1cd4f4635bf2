import Dataflow.Command.Outcome

/-!
# The program

Looks up the files and variables that a command may need, runs it and prints what comes of it.
-/

namespace Dataflow.Command

/-- The variables that matter. -/
def variableNames : List String :=
  Override.all.map Override.name ++ ["XDG_CONFIG_HOME", "HOME", "APPDATA"]

/-- The variables that are set. -/
def readVariables : IO (List (String × String)) :=
  variableNames.filterMapM fun name => do return (← IO.getEnv name).map fun value => (name, value)

/-- The tree with what is at a path, and the directories on the way to it. -/
def addPath (files : FileTree) (p : Path) : IO FileTree := do
  try
    return files.addFile p (← IO.FS.readBinFile p)
  catch
    | .noFileOrDirectory .. => return files
    | _ => return (files.makeDirectories p).1

/-- The settings file that the arguments name. -/
def givenFile? (arguments : List String) : Option Path :=
  match read arguments with
  | .run o _ => o.settings
  | _ => none

end Dataflow.Command

open Dataflow Dataflow.Command in
/-- Run the program on the arguments. -/
def main (arguments : List String) : IO UInt32 := do
  let vars ← readVariables
  let env : Settings.Environment := fun name => vars.lookup name
  let paths := (givenFile? arguments).toList ++ (Settings.path? env).toList
  let files ← paths.foldlM addPath {}
  let outcome := run files env arguments
  outcome.lines.forM IO.println
  outcome.complaint.forM IO.eprintln
  return UInt32.ofNat outcome.code
