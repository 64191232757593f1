import Fakery.Diff.Matching
import Fakery.Text.Lines

/-!
# Unified diffs

The changes between two texts as hunks with three lines of context.
-/

namespace Fakery.Diff

inductive ChangeKind where
  | equal
  | replace
  | delete
  | insert
  deriving DecidableEq, Repr

/-- What happens to lines `left` up to `leftEnd`, which become lines `right` up to
`rightEnd`. -/
structure Change where
  kind : ChangeKind
  left : Nat
  leftEnd : Nat
  right : Nat
  rightEnd : Nat
  deriving DecidableEq, Repr

/-- What happens to a stretch that has no line in common. -/
def gapChange? (left leftEnd right rightEnd : Nat) : Option Change :=
  if left < leftEnd && right < rightEnd then some ⟨.replace, left, leftEnd, right, rightEnd⟩
  else if left < leftEnd then some ⟨.delete, left, leftEnd, right, rightEnd⟩
  else if right < rightEnd then some ⟨.insert, left, leftEnd, right, rightEnd⟩
  else none

/-- The changes from a place in both texts to their ends. -/
def changesFrom (left right leftEnd rightEnd : Nat) : List Block → List Change
  | [] => (gapChange? left leftEnd right rightEnd).toList
  | block :: rest =>
    let leftNext := block.left + block.size
    let rightNext := block.right + block.size
    (gapChange? left block.left right block.right).toList
      ++ ⟨.equal, block.left, leftNext, block.right, rightNext⟩
      :: changesFrom leftNext rightNext leftEnd rightEnd rest

def changes (before after : List (List Char)) : List Change :=
  changesFrom 0 0 before.length after.length (matching before after)

/-- The lines of context around a change. -/
def context : Nat := 3

/-- Keeps the last lines of context of an equal stretch. -/
def Change.keepEnd (change : Change) : Change :=
  if change.kind == .equal then
    { change with
      left := max change.left (change.leftEnd - context)
      right := max change.right (change.rightEnd - context) }
  else change

/-- Keeps the first lines of context of an equal stretch. -/
def Change.keepStart (change : Change) : Change :=
  if change.kind == .equal then
    { change with
      leftEnd := min change.leftEnd (change.left + context)
      rightEnd := min change.rightEnd (change.right + context) }
  else change

/-- Cuts changes into groups in the middle of long equal stretches. -/
def groups : List Change → List (List Change)
  | [] => [[]]
  | change :: rest =>
    if change.kind == .equal && change.leftEnd - change.left > 2 * context then
      match groups rest with
      | [] => [[change.keepStart], [change.keepEnd]]
      | group :: more => [change.keepStart] :: (change.keepEnd :: group) :: more
    else
      match groups rest with
      | [] => [[change]]
      | group :: more => (change :: group) :: more

/-- Trims equal stretches at both ends of a list of changes to their context. -/
def trimEnds (changes : List Change) : List Change :=
  let changes :=
    match changes with
    | first :: rest => first.keepEnd :: rest
    | [] => []
  match changes.getLast? with
  | some last => changes.dropLast ++ [last.keepStart]
  | none => []

/-- A hunk holds more than context. -/
def isHunk (group : List Change) : Bool :=
  group.any (·.kind != .equal)

def hunks (before after : List (List Char)) : List (List Change) :=
  (groups (trimEnds (changes before after))).filter isHunk

/-- A range of lines in a hunk header: its first line and its length, if that is not
one.  An empty range names the line before it. -/
def renderRange (start stop : Nat) : String :=
  let length := stop - start
  if length == 1 then toString (start + 1)
  else if length == 0 then toString start ++ ",0"
  else toString (start + 1) ++ "," ++ toString length

def renderLines (mark : Char) (lines : List (List Char)) (start stop : Nat) : List Char :=
  ((lines.take stop).drop start).flatMap (mark :: ·)

def Change.render (before after : List (List Char)) (change : Change) : List Char :=
  match change.kind with
  | .equal => renderLines ' ' before change.left change.leftEnd
  | .delete => renderLines '-' before change.left change.leftEnd
  | .insert => renderLines '+' after change.right change.rightEnd
  | .replace =>
    renderLines '-' before change.left change.leftEnd
      ++ renderLines '+' after change.right change.rightEnd

def renderHunk (before after : List (List Char)) (hunk : List Change) : List Char :=
  match hunk.head?, hunk.getLast? with
  | some first, some last =>
    ("@@ -" ++ renderRange first.left last.leftEnd ++ " +"
      ++ renderRange first.right last.rightEnd ++ " @@\n").toList
      ++ hunk.flatMap (Change.render before after)
  | _, _ => []

/-- The unified diff of two texts; equal texts have an empty one. -/
def unified (path : String) (before after : List Char) : List Char :=
  if before == after then []
  else
    let lines := Text.lines before
    let others := Text.lines after
    match hunks lines others with
    | [] => []
    | found =>
      ("--- " ++ path ++ " (original)\n+++ " ++ path ++ " (expanded)\n").toList
        ++ found.flatMap (renderHunk lines others)

end Fakery.Diff
