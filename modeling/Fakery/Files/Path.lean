import Fakery.Text.Blank

/-!
# Paths

A path is a root mark and a list of parts.  Empty parts and `.` are dropped when a
path is read; `..` is kept.
-/

namespace Fakery

/-- A path.  The mark is empty for a relative path, a slash for an absolute one, and
two slashes if exactly two were written. -/
structure Path where
  mark : String
  parts : List String
  deriving DecidableEq, Repr, Inhabited

namespace Path

def markOf (cs : List Char) : String :=
  match cs with
  | '/' :: '/' :: '/' :: _ => "/"
  | '/' :: '/' :: _ => "//"
  | '/' :: _ => "/"
  | _ => ""

def ofString (text : String) : Path :=
  let parts := (Text.splitAt '/' text.toList).map String.ofList
  ⟨markOf text.toList, parts.filter fun part => part != "" && part != "."⟩

def ofNames (names : List String) : Path :=
  ⟨"/", names⟩

def isAbsolute (path : Path) : Bool :=
  path.mark != ""

def text (path : Path) : String :=
  if path.mark == "" && path.parts.isEmpty then "."
  else path.mark ++ Text.joined "/" path.parts

/-- The second path as seen from the first; an absolute path stands for itself. -/
def join (base path : Path) : Path :=
  if path.isAbsolute then path else ⟨base.mark, base.parts ++ path.parts⟩

def child (path : Path) (name : String) : Path :=
  path.join (ofString name)

def parent (path : Path) : Path :=
  ⟨path.mark, path.parts.dropLast⟩

def name (path : Path) : String :=
  path.parts.getLast?.getD ""

/-- The rest of a path below another one. -/
def relativeTo? (path base : Path) : Option Path :=
  if path.mark == base.mark && base.parts.isPrefixOf path.parts then
    some ⟨"", path.parts.drop base.parts.length⟩
  else none

/-- Names from the root on, in reverse, after one more part: `..` goes up. -/
def climb (names : List String) (part : String) : List String :=
  if part == ".." then names.drop 1 else part :: names

/-- The names from the root on, as seen from a directory, with every `..` taken
out. -/
def resolve (here : List String) (path : Path) : List String :=
  let start := if path.isAbsolute then [] else here.reverse
  (path.parts.foldl climb start).reverse

/-- A leading `~` stands for the home directory. -/
def expandHome (home : List String) (path : Path) : Path :=
  match path.mark, path.parts with
  | "", "~" :: rest => ⟨"/", home ++ rest⟩
  | _, _ => path

end Path

end Fakery
