import Fakery.Ignore.Rule
import Fakery.Run.Workspace

/-!
# Finding source files

The source files below a directory, without those in well-known build directories
and those that ignore rules exclude.  In every directory files come before
directories, both in the order of their names.
-/

namespace Fakery

/-- A source file with its path below the root of the scan and its size in bytes. -/
structure SourceFile where
  path : String
  size : Nat
  deriving DecidableEq, Repr

structure Manifest where
  root : Path
  files : List SourceFile
  deriving DecidableEq, Repr

/-- Directories that are never searched. -/
def excludedDirectories : List String := [
  ".git", ".hg", ".svn", ".build", ".swiftpm", "DerivedData", "Pods", "Carthage", "node_modules",
  ".idea"]

def sourceSuffix : String := ".swift"

/-- The path of a name in a directory; the root has the empty path. -/
def pathBelow (directory name : String) : String :=
  if directory == "" then name else directory ++ "/" ++ name

def sortByName {α : Type} (entries : List (String × α)) : List (String × α) :=
  entries.mergeSort fun a b => decide (a.1 ≤ b.1)

/-- Whether a file of a directory is a source file to list. -/
def isListed (rules : List IgnoreRule) (directory name : String) : Bool :=
  sourceSuffix.toList.isSuffixOf name.toList
    && !isIgnored rules (pathBelow directory name) false

def isSearched (rules : List IgnoreRule) (directory name : String) : Bool :=
  !excludedDirectories.contains name && !isIgnored rules (pathBelow directory name) true

/-- The source files that stand directly in a directory. -/
def filesIn (rules : List IgnoreRule) (directory : String) :
    List (String × Entry) → List (String × SourceFile)
  | [] => []
  | (name, .file content) :: rest =>
    if isListed rules directory name then
      (name, ⟨pathBelow directory name, content.length⟩) :: filesIn rules directory rest
    else filesIn rules directory rest
  | (_, .directory _) :: rest => filesIn rules directory rest

mutual

def filesBelow (rules : List IgnoreRule) (directory : String) : Entry → List SourceFile
  | .file _ => []
  | .directory children =>
    (sortByName (filesIn rules directory children)).map (·.2)
      ++ (sortByName (filesInEach rules directory children)).flatMap (·.2)

/-- For each subdirectory that is searched, the source files below it. -/
def filesInEach (rules : List IgnoreRule) (directory : String) :
    List (String × Entry) → List (String × List SourceFile)
  | [] => []
  | (name, entry) :: rest =>
    if entry.isDirectory && isSearched rules directory name then
      (name, filesBelow rules (pathBelow directory name) entry)
        :: filesInEach rules directory rest
    else filesInEach rules directory rest

end

namespace Action

/-- The excluded paths of a directory's settings; none if the settings cannot be
used. -/
def settingsExcludes (loader : Yaml.Loader) (root : Path) : Action (List String) :=
  tryCatch (do return (← loadSettings loader root).excludePaths) fun fault =>
    match fault with
    | .settings .notAMapping => return []
    | .settings (.unreadable .malformed) => return []
    | fault => throw fault

/-- The rules of a directory: those of its ignore file, then the excluded paths. -/
def ignoreRules (loader : Yaml.Loader) (root : Path) (excludes : Option (List String)) :
    Action (List IgnoreRule) := do
  let file := root.child ".gitignore"
  let isThere ← look fun tree here => tree.pathExists here file
  let rules ←
    if isThere then IgnoreRule.ofLines <$> Text.bareLines <$> readText file
    else pure []
  let excludes ←
    match excludes with
    | some excludes => pure excludes
    | none => settingsExcludes loader root
  return rules ++ IgnoreRule.ofLines (excludes.map String.toList)

/-- The source files that a path stands for: a file alone, or all below a directory.
Without `excludes` the settings of the directory give them. -/
def scan (loader : Yaml.Loader) (excludes : Option (List String)) (path : String) :
    Action Manifest := do
  let target ← resolve (← expandHome (Path.ofString path))
  match ← look fun tree _ => tree.get? target with
  | none => throw (.sourceNotFound path)
  | some (.file content) =>
    return ⟨Path.ofNames target.dropLast, [⟨target.getLast?.getD "", content.length⟩]⟩
  | some entry =>
    let root := Path.ofNames target
    let rules ← ignoreRules loader root excludes
    return ⟨root, filesBelow rules "" entry⟩

end Action

end Fakery
