import Fakery.Command.Report
import Fakery.Files.Change
import Std.Time.Format

/-!
# The command line

Loads the files that a command may look at, runs the command on them as values, and
carries out the changes it made.
-/

namespace Fakery.CommandLine

/-- Reads a file, or a directory with all that is in it. -/
partial def readEntry (path : String) : IO Entry := do
  let place := (← IO.currentDir) / path
  if ← place.isDir then
    let names := (← place.readDir).toList.map (·.fileName)
    let children ← names.mapM fun name => return (name, ← readEntry (path ++ "/" ++ name))
    return .directory children
  else
    return .file (← IO.FS.readBinFile place).toList

/-- Loads what is at a list of names, with the directories above it.  Where a name is
missing on the disk, loading ends. -/
def load (tree : Entry) (names : List String) : IO Entry := do
  let mut tree := tree
  for count in [1:names.length] do
    let above := names.take count
    let place := (← IO.currentDir) / (Path.ofNames above).text
    if !(← place.pathExists) then return tree
    if !(← place.isDir) then return tree.set above (.file [])
    if (tree.get? above).isNone then tree := tree.set above (.directory [])
  let text := (Path.ofNames names).text
  if ← ((← IO.currentDir) / text).pathExists then return tree.set names (← readEntry text)
  else return tree

def loadPath (workspace : Workspace) (path : Path) : IO Workspace := do
  let names := (path.expandHome workspace.home).resolve workspace.here
  return { workspace with tree := ← load workspace.tree names }

/-- The directory whose settings a command uses, and everything it may write to. -/
def loadFor (workspace : Workspace) (choices : Command.Choices) : IO Workspace := do
  let target := Path.ofString choices.path
  let names := (target.expandHome workspace.home).resolve workspace.here
  let isDirectory ← ((← IO.currentDir) / (Path.ofNames names).text).isDir
  let directory := Path.ofNames (if isDirectory then names else names.dropLast)
  let mut workspace ← loadPath workspace target
  if !isDirectory then workspace ← loadPath workspace (directory.child settingsFileName)
  let (loaded, _) := (Action.loadSettings Tools.standard.loader directory).run workspace
  if let .ok settings := loaded then
    if let some output := settings.outputDirectory then workspace ← loadPath workspace output
  if let some output := choices.outputDirectory then
    workspace ← loadPath workspace (Path.ofString output)
  if let some log := choices.logFile then workspace ← loadPath workspace (Path.ofString log)
  return workspace

def carryOut (change : Change) : IO Unit :=
  match change with
  | .makeDirectory names => IO.FS.createDirAll (Path.ofNames names).text
  | .writeFile names content => IO.FS.writeBinFile (Path.ofNames names).text ⟨content.toArray⟩

/-- The workspace of this process, without any files. -/
def emptyWorkspace : IO Workspace := do
  let home := (← IO.getEnv "HOME").getD "/"
  return {
    tree := .directory []
    here := (Path.ofString (← IO.currentDir).toString).parts
    home := (Path.ofString home).parts
    stamp := (← Std.Time.PlainDateTime.now).format "uuuu-MM-dd HH:mm:ss,SSS" }

/-- Runs a command on the disk and gives how it ended. -/
def runOnDisk (invocation : Command.Invocation) : IO Command.Exit := do
  let workspace ← loadFor (← emptyWorkspace) invocation.choices
  let (result, after) := (Command.run .standard false invocation).run workspace
  for change in after.tree.changes [] (some workspace.tree) do
    carryOut change
  match result with
  | .ok result => return result.exit
  | .error fault => return { code := 1, errors := fault.message ++ "\n" }

end Fakery.CommandLine

open Fakery in
def main (args : List String) : IO UInt32 := do
  let exit ←
    match Command.read args with
    | .error exit => pure exit
    | .ok invocation => CommandLine.runOnDisk invocation
  (← IO.getStdout).putStr exit.output
  (← IO.getStderr).putStr exit.errors
  return exit.code.toUInt32
