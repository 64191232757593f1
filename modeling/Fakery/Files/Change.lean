import Fakery.Files.Tree

/-!
# Changes of a tree of files

What has to be done to a tree to get another one that has all of its entries:
directories to make and files to write, each directory before what is in it.
-/

namespace Fakery

/-- One step on the way from a tree to another.  Names go from the root on. -/
inductive Change where
  | makeDirectory (names : List String)
  | writeFile (names : List String) (content : List UInt8)
  deriving DecidableEq, Repr

namespace Entry

def content? : Entry → Option (List UInt8)
  | .file content => some content
  | .directory _ => none

mutual

/-- The changes that make the entry at `names` from what was there before. -/
def changes (names : List String) (old : Option Entry) : Entry → List Change
  | .file content =>
    if old.bind content? == some content then [] else [.writeFile names content]
  | .directory children =>
    let below := childChanges names ((old.map Entry.children).getD []) children
    if (old.map isDirectory).getD false then below else .makeDirectory names :: below

def childChanges (names : List String) (old : List (String × Entry)) :
    List (String × Entry) → List Change
  | [] => []
  | (name, entry) :: rest =>
    entry.changes (names ++ [name]) (old.lookup name) ++ childChanges names old rest

end

end Entry

end Fakery
