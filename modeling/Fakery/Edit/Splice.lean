import Fakery.Edit.Basic

/-!
# Removing attributes and inserting members

`removal` deletes an attribute together with the blanks behind it, or the whole
line if nothing else stands on it.  `insertion` places a rendered block before a
closing brace, one level deeper than the declaration.
-/

namespace Fakery

def lineStart (source : List Char) (offset : Nat) : Nat :=
  let before := source.take offset
  before.length - (before.reverse.takeWhile (· != '\n')).length

/-- The offset of the first line feed at or behind an offset, or the end. -/
def lineEnd (source : List Char) (offset : Nat) : Nat :=
  min source.length (offset + ((source.drop offset).takeWhile (· != '\n')).length)

def lineIndent (source : List Char) (offset : Nat) : List Char :=
  (source.drop (lineStart source offset)).takeWhile Text.isSpaceOrTab

/-- The first offset at or behind `offset` without space or tab. -/
def skipBlanks (source : List Char) (offset : Nat) : Nat :=
  offset + ((source.drop offset).takeWhile Text.isSpaceOrTab).length

/-- Deletes what stands between two offsets. -/
def removal (source : List Char) (start stop : Nat) : Edit :=
  let lineFirst := lineStart source start
  let lineLast := lineEnd source stop
  if Text.isBlankText (Text.slice source lineFirst start)
      && Text.isBlankText (Text.slice source stop lineLast) then
    ⟨lineFirst, min (lineLast + 1) source.length, []⟩
  else ⟨start, skipBlanks source stop, []⟩

/-- Puts an indentation before every line that is not empty. -/
def indentBlock (indent text : List Char) : List Char :=
  Text.joinWith ['\n'] <| (Text.splitAt '\n' text).map fun line =>
    if line.isEmpty then line else indent ++ line

/-- Whether the last line of a text that ends in a line feed is blank. -/
def endsWithBlankLine (text : List Char) : Bool :=
  match text.reverse with
  | '\n' :: rest => (rest.dropWhile Text.isSpaceOrTab).head? == some '\n'
  | _ => false

/-- The places in the text that an insertion needs to know of a declaration. -/
structure Site where
  keywordStart : Nat
  bodyStart : Nat
  bodyEnd : Nat
  deriving DecidableEq, Repr

/-- Places a block before the closing brace.  A brace on a line of its own stays
where it is; otherwise it moves to a line of its own. -/
def insertion (source : List Char) (site : Site) (rendered unit : List Char) : Edit :=
  let outer := lineIndent source site.keywordStart
  let block := indentBlock (outer ++ unit) rendered
  let close := site.bodyEnd
  let first := lineStart source close
  if Text.isBlankText (Text.slice source first close) then
    let preceding := Text.slice source (site.bodyStart + 1) first
    let lead := if Text.isBlankText preceding || endsWithBlankLine preceding then [] else ['\n']
    ⟨first, first, lead ++ block ++ ['\n']⟩
  else
    let blanks := (Text.slice source (site.bodyStart + 1) close).reverse.takeWhile
      Text.isSpaceOrTab
    let start := close - blanks.length
    let body := Text.slice source (site.bodyStart + 1) start
    let lead := if Text.isBlankText body then ['\n'] else ['\n', '\n']
    ⟨start, close, lead ++ block ++ ['\n'] ++ outer⟩

end Fakery
