/-!
# Matching blocks

Two lists of lines are aligned by their longest common run, then recursively on
both sides of it.  In a long text a line that occurs very often does not start a
run, though a run may be extended over it.
-/

namespace Fakery.Diff

/-- A run of `size` equal lines at `left` in the first list and `right` in the second. -/
structure Block where
  left : Nat
  right : Nat
  size : Nat
  deriving DecidableEq, Repr

/-- A line of the second list, with the mark that it may start a run. -/
structure Target where
  line : List Char
  seed : Bool
  deriving DecidableEq, Repr

/-- Texts of at least this many lines have frequent lines. -/
def frequentFrom : Nat := 200

/-- Marks the lines of the second list: in a long text, a line with more than one
percent of occurrences (and one) starts no run. -/
def targets (lines : List (List Char)) : List Target :=
  let count := lines.length
  lines.map fun line =>
    ⟨line, count < frequentFrom || lines.count line ≤ count / 100 + 1⟩

/-- Lengths of the runs that end at a line of the first list and at each target,
from the lengths one line before. -/
def runLengths (line : List Char) (targets : List Target) (before : List Nat) : List Nat :=
  List.zipWith (fun (target : Target) length =>
    if target.seed && target.line == line then length + 1 else 0) targets (0 :: before)

/-- The better of a block and the first longer run in a row of lengths; `row` is the
row's number and `column` that of its first length. -/
def bestInRow (row column : Nat) (best : Block) : List Nat → Block
  | [] => best
  | length :: rest =>
    let run : Block := ⟨row + 1 - length, column + 1 - length, length⟩
    bestInRow row (column + 1) (if best.size < length then run else best) rest

/-- The first of the longest runs between seeds, row by row. -/
def longestRun (targets : List Target) (row : Nat) (before : List Nat) (best : Block) :
    List (List Char) → Block
  | [] => best
  | line :: rest =>
    let lengths := runLengths line targets before
    longestRun targets (row + 1) lengths (bestInRow row 0 best lengths) rest

/-- The number of equal lines at the head of two lists. -/
def commonHead : List (List Char) → List (List Char) → Nat
  | a :: as, b :: bs => if a == b then 1 + commonHead as bs else 0
  | _, _ => 0

/-- Extends a block in both directions over equal lines of any kind. -/
def extend (lines others : List (List Char)) (block : Block) : Block :=
  let back := commonHead (lines.take block.left).reverse (others.take block.right).reverse
  let on := commonHead (lines.drop (block.left + block.size))
    (others.drop (block.right + block.size))
  ⟨block.left - back, block.right - back, back + block.size + on⟩

def longestBlock (lines : List (List Char)) (targets : List Target) : Block :=
  extend lines (targets.map (·.line))
    (longestRun targets 0 (targets.map fun _ => 0) ⟨0, 0, 0⟩ lines)

def Block.shift (left right : Nat) (block : Block) : Block :=
  ⟨block.left + left, block.right + right, block.size⟩

/-- The blocks of two lists, from left to right.  The fuel bounds the depth of the
division. -/
def blocks : (fuel : Nat) → List (List Char) → List Target → List Block
  | 0, _, _ => []
  | fuel + 1, lines, targets =>
    if lines.isEmpty || targets.isEmpty then []
    else
      let block := longestBlock lines targets
      if block.size == 0 then []
      else
        let left := block.left + block.size
        let right := block.right + block.size
        blocks fuel (lines.take block.left) (targets.take block.right) ++ [block]
          ++ (blocks fuel (lines.drop left) (targets.drop right)).map (Block.shift left right)

def joinTouching : List Block → List Block
  | [] => []
  | block :: rest =>
    match joinTouching rest with
    | [] => [block]
    | next :: more =>
      if block.left + block.size == next.left && block.right + block.size == next.right then
        ⟨block.left, block.right, block.size + next.size⟩ :: more
      else block :: next :: more

/-- The maximal runs of lines that two texts share, in order. -/
def matching (before after : List (List Char)) : List Block :=
  joinTouching (blocks (before.length + 1) before (targets after))

end Fakery.Diff
