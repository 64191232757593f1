import Fakery.Files.Path
import Fakery.Text.Quoted

/-!
# A tree of files

Files and directories as a value.  Paths are followed name by name from the root;
`..` in the middle of a path leads up only from a directory that exists.
-/

namespace Fakery

inductive Entry where
  | file (content : List UInt8)
  | directory (children : List (String × Entry))
  deriving Inhabited, Repr

inductive FileFaultKind where
  | notFound
  | alreadyExists
  | notADirectory
  | isADirectory
  deriving DecidableEq, Repr

/-- A failed file operation, with the path it was given. -/
structure FileFault where
  kind : FileFaultKind
  path : String
  deriving DecidableEq, Repr

def FileFaultKind.text : FileFaultKind → String
  | .notFound => "[Errno 2] No such file or directory"
  | .alreadyExists => "[Errno 17] File exists"
  | .notADirectory => "[Errno 20] Not a directory"
  | .isADirectory => "[Errno 21] Is a directory"

def FileFault.message (fault : FileFault) : String :=
  fault.kind.text ++ ": " ++ Text.quoted fault.path

namespace Entry

def isDirectory : Entry → Bool
  | .directory _ => true
  | .file _ => false

def children : Entry → List (String × Entry)
  | .directory children => children
  | .file _ => []

def get? : List String → Entry → Option Entry
  | [], entry => some entry
  | name :: rest, entry => (entry.children.lookup name).bind (get? rest)

/-- Puts an entry under a name; an entry that is there already keeps its place. -/
def setChild (name : String) (entry : Entry) : List (String × Entry) → List (String × Entry)
  | [] => [(name, entry)]
  | (other, old) :: rest =>
    if other == name then (name, entry) :: rest else (other, old) :: setChild name entry rest

/-- Puts an entry at a list of names, making the directories on the way. -/
def set (tree : Entry) : List String → Entry → Entry
  | [], entry => entry
  | name :: rest, entry =>
    let below := (tree.children.lookup name).getD (.directory [])
    .directory (setChild name (below.set rest entry) tree.children)

/-- Takes away the entry at a list of names. -/
def erase : List String → Entry → Entry
  | [], tree => tree
  | [name], tree => .directory (tree.children.filter (·.1 != name))
  | name :: rest, tree =>
    match tree.children.lookup name with
    | some below => .directory (setChild name (erase rest below) tree.children)
    | none => tree

/-- Follows one part of a path from a place that exists. -/
def follow (tree : Entry) (names : List String) (part : String) :
    Except FileFaultKind (List String) :=
  match tree.get? names with
  | some (.directory children) =>
    if part == ".." then .ok names.dropLast
    else if (children.lookup part).isSome then .ok (names ++ [part])
    else .error .notFound
  | some (.file _) => .error .notADirectory
  | none => .error .notFound

/-- The names of what a path leads to. -/
def locate (tree : Entry) (here : List String) (path : Path) :
    Except FileFaultKind (List String) :=
  path.parts.foldlM (follow tree) (if path.isAbsolute then [] else here)

/-- What a path leads to. -/
def stat (tree : Entry) (here : List String) (path : Path) : Except FileFaultKind Entry :=
  match tree.locate here path with
  | .error kind => .error kind
  | .ok names =>
    match tree.get? names with
    | some entry => .ok entry
    | none => .error .notFound

def pathExists (tree : Entry) (here : List String) (path : Path) : Bool :=
  (tree.stat here path).isOk

def directoryExists (tree : Entry) (here : List String) (path : Path) : Bool :=
  match tree.stat here path with
  | .ok entry => entry.isDirectory
  | .error _ => false

def readFile (tree : Entry) (here : List String) (path : Path) :
    Except FileFault (List UInt8) :=
  match tree.stat here path with
  | .ok (.file content) => .ok content
  | .ok (.directory _) => .error ⟨.isADirectory, path.text⟩
  | .error kind => .error ⟨kind, path.text⟩

/-- Makes one directory, whose parent has to exist. -/
def makeDirectory (tree : Entry) (here : List String) (path : Path) :
    Except FileFaultKind Entry :=
  match tree.locate here path with
  | .ok _ => .error .alreadyExists
  | .error .notFound =>
    match tree.locate here path.parent with
    | .error kind => .error kind
    | .ok names =>
      match tree.get? names with
      | some (.directory _) => .ok (tree.set (names ++ [path.name]) (.directory []))
      | some (.file _) => .error .notADirectory
      | none => .error .notFound
  | .error kind => .error kind

/-- Makes a directory and the directories above it; one that exists is kept. -/
def makeDirectories (here : List String) : (fuel : Nat) → Entry → Path → Except FileFault Entry
  | 0, tree, _ => .ok tree
  | fuel + 1, tree, path =>
    match tree.makeDirectory here path with
    | .ok tree => .ok tree
    | .error .notFound => do
      let tree ← makeDirectories here fuel tree path.parent
      makeDirectories here fuel tree path
    | .error kind =>
      if tree.directoryExists here path then .ok tree else .error ⟨kind, path.text⟩

def ensureDirectory (tree : Entry) (here : List String) (path : Path) : Except FileFault Entry :=
  makeDirectories here (2 * path.parts.length + 2) tree path

/-- Changes the content of a file, which is made if its directory exists. -/
def modifyFile (tree : Entry) (here : List String) (path : Path)
    (change : List UInt8 → List UInt8) : Except FileFault Entry :=
  match tree.locate here path with
  | .ok names =>
    match tree.get? names with
    | some (.file content) => .ok (tree.set names (.file (change content)))
    | _ => .error ⟨.isADirectory, path.text⟩
  | .error .notFound =>
    match tree.locate here path.parent with
    | .ok names =>
      match tree.get? names with
      | some (.directory _) => .ok (tree.set (names ++ [path.name]) (.file (change [])))
      | _ => .error ⟨.notADirectory, path.text⟩
    | .error kind => .error ⟨kind, path.text⟩
  | .error kind => .error ⟨kind, path.text⟩

def writeFile (tree : Entry) (here : List String) (path : Path) (content : List UInt8) :
    Except FileFault Entry :=
  tree.modifyFile here path fun _ => content

end Entry

end Fakery
