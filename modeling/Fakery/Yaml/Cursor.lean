/-!
# A place in a YAML text
-/

namespace Fakery.Yaml

/-- Characters that end a line. -/
def isBreak (c : Char) : Bool :=
  c == '\r' || c == '\n' || c == '\u0085' || c == '\u2028' || c == '\u2029'

/-- A blank, a tab, a line end or the end of the text. -/
def endsWord : Option Char → Bool
  | none => true
  | some c => c == ' ' || c == '\t' || isBreak c

/-- A blank, a line end or the end of the text. -/
def endsField : Option Char → Bool
  | none => true
  | some c => c == ' ' || isBreak c

/-- A line end or the end of the text. -/
def endsLine : Option Char → Bool
  | none => true
  | some c => isBreak c

/-- The rest of a text, with the place at which it begins. -/
structure Cursor where
  rest : List Char
  index : Nat := 0
  line : Nat := 0
  column : Nat := 0

namespace Cursor

def peek (cursor : Cursor) : Option Char :=
  cursor.rest.head?

def peekAt (cursor : Cursor) (n : Nat) : Option Char :=
  cursor.rest[n]?

/-- Passes one character.  A carriage return before a line feed ends no line; a byte
order mark takes no column. -/
def advance (cursor : Cursor) : Cursor :=
  match cursor.rest with
  | [] => cursor
  | c :: rest =>
    if isBreak c && !(c == '\r' && rest.head? == some '\n') then
      ⟨rest, cursor.index + 1, cursor.line + 1, 0⟩
    else
      ⟨rest, cursor.index + 1, cursor.line,
        if c == '\ufeff' then cursor.column else cursor.column + 1⟩

def skip : (count : Nat) → Cursor → Cursor
  | 0, cursor => cursor
  | count + 1, cursor => skip count cursor.advance

/-- Passes the characters that satisfy a test. -/
def span (test : Char → Bool) (cursor : Cursor) : List Char × Cursor :=
  let taken := cursor.rest.takeWhile test
  (taken, cursor.skip taken.length)

def skipWhile (test : Char → Bool) (cursor : Cursor) : Cursor :=
  (cursor.span test).2

/-- A line end and what it reads as: the ASCII ones as a line feed, the others as
themselves. -/
def lineBreak? (cursor : Cursor) : Option (Char × Cursor) :=
  match cursor.rest with
  | '\r' :: '\n' :: _ => some ('\n', cursor.skip 2)
  | c :: _ =>
    if c == '\u2028' || c == '\u2029' then some (c, cursor.advance)
    else if isBreak c then some ('\n', cursor.advance)
    else none
  | [] => none

/-- Three equal marks `---` or `...` that stand alone. -/
def atMarks (mark : Char) (cursor : Cursor) : Bool :=
  cursor.rest.take 3 == [mark, mark, mark] && endsWord (cursor.peekAt 3)

/-- The start or the end of a document. -/
def atSeparator (cursor : Cursor) : Bool :=
  cursor.atMarks '-' || cursor.atMarks '.'

/-- Passes blanks while the column is less than an indentation. -/
def skipIndent (indent : Nat) : (fuel : Nat) → Cursor → Cursor
  | 0, cursor => cursor
  | fuel + 1, cursor =>
    if cursor.column < indent && cursor.peek == some ' ' then skipIndent indent fuel cursor.advance
    else cursor

/-- Passes blanks and a comment. -/
def skipComment (cursor : Cursor) : Cursor :=
  let cursor := cursor.skipWhile (· == ' ')
  if cursor.peek == some '#' then cursor.skipWhile (!isBreak ·) else cursor

end Cursor

end Fakery.Yaml
