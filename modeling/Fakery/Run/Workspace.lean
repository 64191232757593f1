import Fakery.Files.Tree
import Fakery.Log
import Fakery.Settings.Basic
import Fakery.Text.Lines
import Fakery.Text.Utf8

/-!
# The workspace of a run

A run reads and changes a tree of files and leaves log records.  An action that
fails keeps the changes made before.
-/

namespace Fakery

structure Workspace where
  tree : Entry
  /-- The names of the working directory, from the root on. -/
  here : List String
  home : List String
  /-- The log file, if records are also written to one. -/
  logFile : Option Path := none
  /-- The time that log lines carry. -/
  stamp : String := ""
  log : List LogRecord := []

/-- Why a run stops. -/
inductive RunFault where
  | sourceNotFound (path : String)
  | file (fault : FileFault)
  | decoding (fault : Text.Utf8.Fault)
  | settings (fault : SettingsFault)
  | noHome
  deriving DecidableEq, Repr

def RunFault.message : RunFault → String
  | .sourceNotFound path => "Source path not found: " ++ path
  | .file fault => fault.message
  | .decoding fault => fault.message
  | .settings fault => fault.message
  | .noHome => "Could not determine home directory."

def LogRecord.fileLine (stamp : String) (record : LogRecord) : String :=
  stamp ++ " " ++ record.level.name ++ " autofake." ++ record.component ++ ": "
    ++ record.message ++ "\n"

/-- Leaves a record, also in the log file. -/
def Workspace.emit (record : LogRecord) (workspace : Workspace) : Workspace :=
  let line := Text.Utf8.encode (record.fileLine workspace.stamp).toList
  let tree :=
    match workspace.logFile with
    | none => workspace.tree
    | some path =>
      match workspace.tree.modifyFile workspace.here path (· ++ line) with
      | .ok tree => tree
      | .error _ => workspace.tree
  { workspace with tree, log := workspace.log ++ [record] }

/-- What a run does, step by step. -/
abbrev Action (α : Type) := ExceptT RunFault (StateM Workspace) α

namespace Action

def emit (record : LogRecord) : Action Unit :=
  modify (Workspace.emit record)

def emitAll (records : List LogRecord) : Action Unit :=
  modify fun workspace => records.foldl (fun workspace record => workspace.emit record) workspace

/-- An operation on files that only looks. -/
def look {α : Type} (f : Entry → List String → α) : Action α := do
  let workspace ← get
  return f workspace.tree workspace.here

def ofFile {α : Type} (result : Except FileFault α) : Action α :=
  match result with
  | .ok a => return a
  | .error fault => throw (.file fault)

/-- An operation on files that changes them. -/
def change (f : Entry → List String → Except FileFault Entry) : Action Unit := do
  let tree ← ofFile (← look f)
  modify fun workspace => { workspace with tree }

/-- The names that a path given by the user leads to. -/
def resolve (path : Path) : Action (List String) := do
  let workspace ← get
  return path.resolve workspace.here

/-- A path with its home directory filled in. -/
def expandHome (path : Path) : Action Path := do
  let workspace ← get
  let path := path.expandHome workspace.home
  if path.mark == "" && (path.parts.head?.bind (·.toList.head?)) == some '~' then throw .noHome
  else return path

/-- The text of a file, with line feeds for all line ends. -/
def readText (path : Path) : Action (List Char) := do
  let bytes ← ofFile (← look fun tree here => tree.readFile here path)
  match Text.Utf8.decode bytes with
  | .ok text => return Text.normalizeNewlines text
  | .error fault => throw (.decoding fault)

/-- The settings file for a path: in the directory that it names, or beside it. -/
def settingsPath (path : Path) : Action Path := do
  let path ← expandHome path
  let isDirectory ← look fun tree here => tree.directoryExists here path
  let file :=
    if isDirectory then path.child settingsFileName
    else if path.name != settingsFileName then path.parent.child settingsFileName
    else path
  return Path.ofNames (← resolve file)

/-- The settings for a path; without a file they are the standard ones. -/
def loadSettings (loader : Yaml.Loader) (path : Path) : Action Settings := do
  let file ← settingsPath path
  let isThere ← look fun tree here => tree.pathExists here file
  if isThere then
    let text ← readText file
    match Settings.ofText loader file.parent text with
    | .ok settings => return settings
    | .error fault => throw (.settings fault)
  else return { root := file.parent }

end Action

end Fakery
