/-!
# Glob patterns

A pattern is a list of pieces: literal characters, `?`, `*` and sets.  Slashes are
ordinary characters.  A set runs to the first closing bracket behind its first
member; a bracket that nothing closes is literal.
-/

namespace Fakery

inductive GlobPiece where
  | char (c : Char)
  | anyChar
  | anyText
  /-- One of the characters in the ranges, or with `negated` any other one. -/
  | oneOf (negated : Bool) (ranges : List (Char × Char))
  deriving DecidableEq, Repr

namespace Glob

/-- The members of a set, cut at the hyphens that make ranges.  `held` is the number
of characters that cannot be such a hyphen: the first one of a set, and the two
behind a hyphen. -/
def chunks : (held : Nat) → List Char → List (List Char)
  | _, [] => [[]]
  | held, c :: rest =>
    if c == '-' && held == 0 then [] :: chunks 2 rest
    else
      match chunks (held - 1) rest with
      | [] => [[c]]
      | chunk :: more => (c :: chunk) :: more

/-- A hyphen with nothing behind it is a member. -/
def keepLastHyphen : List (List Char) → List (List Char)
  | [] => []
  | [chunk] => [chunk]
  | [chunk, []] => [chunk ++ ['-']]
  | chunk :: next :: rest => chunk :: keepLastHyphen (next :: rest)

/-- Drops the ends of ranges that run backwards, from the last one to the first. -/
def dropBackward : List (List Char) → List (List Char)
  | [] => []
  | chunk :: rest =>
    match dropBackward rest with
    | [] => [chunk]
    | next :: more =>
      match chunk.getLast?, next.head? with
      | some low, some high =>
        if high < low then (chunk.dropLast ++ next.drop 1) :: more else chunk :: next :: more
      | _, _ => chunk :: next :: more

/-- Members and range hyphens, the latter as `none`. -/
def joinChunks : List (List Char) → List (Option Char)
  | [] => []
  | [chunk] => chunk.map some
  | chunk :: rest => chunk.map some ++ none :: joinChunks rest

/-- The ranges of a list of members; a single member is a range of one character. -/
def ranges : List (Option Char) → List (Char × Char)
  | [] => []
  | some low :: none :: some high :: rest => (low, high) :: ranges rest
  | some c :: rest => (c, c) :: ranges rest
  | none :: rest => ('-', '-') :: ranges rest

/-- The piece that the text between two brackets stands for.  A leading exclamation
mark negates the set. -/
def ofSet (text : List Char) : GlobPiece :=
  let held := if text.head? == some '!' then 2 else 1
  match joinChunks (dropBackward (keepLastHyphen (chunks held text))) with
  | some '!' :: members => .oneOf true (ranges members)
  | members => .oneOf false (ranges members)

/-- The text of a set whose opening bracket is already read, with what follows its
closing bracket. -/
def splitSet? (cs : List Char) : Option (List Char × List Char) :=
  let head := if cs.head? == some '!' then 1 else 0
  let head := if (cs.drop head).head? == some ']' then head + 1 else head
  match (cs.drop head).span (· != ']') with
  | (text, _ :: rest) => some (cs.take head ++ text, rest)
  | (_, []) => none

/-- Reads a pattern; the fuel is its length. -/
def readPieces : (fuel : Nat) → List Char → List GlobPiece
  | 0, _ => []
  | _, [] => []
  | fuel + 1, c :: rest =>
    if c == '*' then .anyText :: readPieces fuel rest
    else if c == '?' then .anyChar :: readPieces fuel rest
    else if c == '[' then
      match splitSet? rest with
      | some (text, rest) => ofSet text :: readPieces fuel rest
      | none => .char '[' :: readPieces fuel rest
    else .char c :: readPieces fuel rest

def ofPattern (pattern : List Char) : List GlobPiece :=
  readPieces pattern.length pattern

end Glob

/-- Whether a piece that stands for one character stands for this one. -/
def GlobPiece.accepts (piece : GlobPiece) (c : Char) : Bool :=
  match piece with
  | .char d => c == d
  | .anyChar => true
  | .anyText => false
  | .oneOf negated ranges =>
    negated != ranges.any fun (low, high) => low ≤ c && c ≤ high

namespace Glob

/-- Whether a test holds of some end of a text. -/
def anyEnd (test : List Char → Bool) : List Char → Bool
  | [] => test []
  | c :: rest => test (c :: rest) || anyEnd test rest

def matchesPieces : List GlobPiece → List Char → Bool
  | [], text => text.isEmpty
  | .anyText :: pieces, text => anyEnd (matchesPieces pieces) text
  | _ :: _, [] => false
  | piece :: pieces, c :: rest => piece.accepts c && matchesPieces pieces rest

def matchesText (pattern text : String) : Bool :=
  matchesPieces (ofPattern pattern.toList) text.toList

end Glob

end Fakery
