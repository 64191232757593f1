/-!
# Lines

A line ends at any of the Unicode line boundaries, and a carriage return followed
by a line feed is one boundary.  `lines` keeps the boundaries, so the lines of a
text concatenate to the text.
-/

namespace Fakery.Text

/-- The characters that end a line. -/
def isLineBreak (c : Char) : Bool :=
  let n := c.toNat
  (10 ≤ n && n ≤ 13) || (28 ≤ n && n ≤ 30) || n == 0x85 || n == 0x2028 || n == 0x2029

/-- The lines of a text, each with the boundary that ends it. -/
def lines : List Char → List (List Char)
  | [] => []
  | '\r' :: '\n' :: rest => ['\r', '\n'] :: lines rest
  | c :: rest =>
    if isLineBreak c then [c] :: lines rest
    else
      match lines rest with
      | [] => [[c]]
      | line :: more => (c :: line) :: more

/-- The lines of a text without their boundaries. -/
def bareLines (cs : List Char) : List (List Char) :=
  (lines cs).map fun line => line.filter fun c => !isLineBreak c

/-- A carriage return, alone or before a line feed, reads as a line feed. -/
def normalizeNewlines : List Char → List Char
  | [] => []
  | '\r' :: '\n' :: rest => '\n' :: normalizeNewlines rest
  | c :: rest => (if c == '\r' then '\n' else c) :: normalizeNewlines rest

end Fakery.Text
