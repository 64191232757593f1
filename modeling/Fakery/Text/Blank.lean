/-!
# White space

The one notion of white space used when texts are trimmed: the Unicode white
space characters together with the four ASCII information separators.
-/

namespace Fakery.Text

/-- White space as trimming sees it. -/
def isBlank (c : Char) : Bool :=
  let n := c.toNat
  (9 ≤ n && n ≤ 13) || (28 ≤ n && n ≤ 32) || n == 0x85 || n == 0xA0 || n == 0x1680
    || (0x2000 ≤ n && n ≤ 0x200A) || n == 0x2028 || n == 0x2029 || n == 0x202F
    || n == 0x205F || n == 0x3000

/-- The blanks that may stand inside one line of an indentation. -/
def isSpaceOrTab (c : Char) : Bool :=
  c == ' ' || c == '\t'

/-- A text of white space only; the empty text is one. -/
def isBlankText (cs : List Char) : Bool :=
  cs.all isBlank

def trimLeft (cs : List Char) : List Char :=
  cs.dropWhile isBlank

def trimRight (cs : List Char) : List Char :=
  (cs.reverse.dropWhile isBlank).reverse

/-- Removes white space at both ends. -/
def trim (cs : List Char) : List Char :=
  trimRight (trimLeft cs)

/-- `trim` on strings. -/
def trimmed (s : String) : String :=
  String.ofList (trim s.toList)

/-- The part of a text between two offsets, counted in characters.  Offsets past
the end stand for the end. -/
def slice (cs : List Char) (start stop : Nat) : List Char :=
  (cs.take stop).drop start

/-- Cuts a text at every occurrence of one character; there is always a piece. -/
def splitAt (mark : Char) : List Char → List (List Char)
  | [] => [[]]
  | c :: rest =>
    if c == mark then [] :: splitAt mark rest
    else
      match splitAt mark rest with
      | [] => [[c]]
      | piece :: pieces => (c :: piece) :: pieces

/-- Glues pieces together with a separator between neighbours. -/
def joinWith (separator : List Char) : List (List Char) → List Char
  | [] => []
  | [piece] => piece
  | piece :: pieces => piece ++ separator ++ joinWith separator pieces

/-- `joinWith` on strings. -/
def joined (separator : String) (pieces : List String) : String :=
  String.ofList (joinWith separator.toList (pieces.map String.toList))

end Fakery.Text
