import Fakery.Text.Integer
import Fakery.Yaml.Cursor
import Fakery.Yaml.Fault

/-!
# Reading scalars

Quoted, plain and block scalars.  Every reader gives back the text of the scalar and
the place behind it.
-/

namespace Fakery.Yaml

/-- What a backslash and one character stand for. -/
def escapes : List (Char × Char) := [
  ('0', '\x00'), ('a', '\x07'), ('b', '\x08'), ('t', '\t'), ('\t', '\t'), ('n', '\n'),
  ('v', '\x0b'), ('f', '\x0c'), ('r', '\r'), ('e', '\x1b'), (' ', ' '), ('"', '"'), ('\\', '\\'),
  ('/', '/'), ('N', '\u0085'), ('_', '\u00a0'), ('L', '\u2028'), ('P', '\u2029')]

/-- Escapes that are followed by hexadecimal digits, with the number of them. -/
def codeLengths : List (Char × Nat) := [('x', 2), ('u', 4), ('U', 8)]

/-- The line ends behind a first one, with the blanks between them.  A document
separator may not stand at the beginning of a line. -/
def readBreaks : (fuel : Nat) → Cursor → Except Fault (List Char × Cursor)
  | 0, _ => .error .malformed
  | fuel + 1, cursor =>
    if cursor.atSeparator then .error .malformed
    else
      let cursor := cursor.skipWhile fun c => c == ' ' || c == '\t'
      match cursor.lineBreak? with
      | some (c, cursor) =>
        (readBreaks fuel cursor).map fun (breaks, cursor) => (c :: breaks, cursor)
      | none => .ok ([], cursor)

/-- What a line end and the empty lines behind it fold to: one line end alone becomes
a blank. -/
def foldBreaks (first : Char) (breaks : List Char) : List Char :=
  if first != '\n' then first :: breaks
  else if breaks.isEmpty then [' ']
  else breaks

/-- The character that hexadecimal digits behind an escape stand for. -/
def readCode (length : Nat) (cursor : Cursor) : Except Fault (Char × Cursor) :=
  let digits := (cursor.rest.take length).filterMap Text.hexDigit?
  if digits.length == length then
    let code := Text.ofDigits 16 digits
    if code < 0x110000 then .ok (Char.ofNat code, cursor.skip length)
    else .error (if code < 0x80000000 then .codePoint else .largeCode)
  else .error .malformed

/-- The rest of a quoted scalar whose opening quote is already read. -/
def readQuoted (double : Bool) : (fuel : Nat) → Cursor → Except Fault (List Char × Cursor)
  | 0, _ => .error .malformed
  | fuel + 1, cursor =>
    match cursor.rest with
    | [] => .error .malformed
    | c :: rest =>
      let quote := if double then '"' else '\x27'
      if c == quote then
        if !double && rest.head? == some quote then
          (readQuoted double fuel (cursor.skip 2)).map fun (text, cursor) => (quote :: text, cursor)
        else .ok ([], cursor.advance)
      else if double && c == '\\' then
        let cursor := cursor.advance
        match cursor.peek with
        | none => .error .malformed
        | some mark =>
          match escapes.lookup mark, codeLengths.lookup mark with
          | some c, _ =>
            (readQuoted double fuel cursor.advance).map fun (text, cursor) => (c :: text, cursor)
          | none, some length => do
            let (c, cursor) ← readCode length cursor.advance
            let (text, cursor) ← readQuoted double fuel cursor
            return (c :: text, cursor)
          | none, none =>
            match cursor.lineBreak? with
            | none => .error .malformed
            | some (_, cursor) => do
              let (breaks, cursor) ← readBreaks fuel cursor
              let (text, cursor) ← readQuoted double fuel cursor
              return (breaks ++ text, cursor)
      else if c == ' ' || c == '\t' || isBreak c then
        let (blanks, cursor) := cursor.span fun c => c == ' ' || c == '\t'
        match cursor.lineBreak? with
        | none => (readQuoted double fuel cursor).map fun (text, cursor) => (blanks ++ text, cursor)
        | some (first, cursor) => do
          let (breaks, cursor) ← readBreaks fuel cursor
          let (text, cursor) ← readQuoted double fuel cursor
          return (foldBreaks first breaks ++ text, cursor)
      else (readQuoted double fuel cursor.advance).map fun (text, cursor) => (c :: text, cursor)

/-- Whether a plain scalar goes on with the characters given. -/
def isPlainPart (inFlow : Bool) (c : Char) (next : Option Char) : Bool :=
  !(endsWord (some c)
    || (c == ':' && (endsWord next
      || (inFlow && (next.map [',', '[', ']', '\x7b', '\x7d'].contains).getD false)))
    || (inFlow && [',', '?', '[', ']', '\x7b', '\x7d'].contains c))

/-- The word a plain scalar goes on with. -/
def plainWord (inFlow : Bool) : List Char → List Char
  | [] => []
  | c :: rest => if isPlainPart inFlow c rest.head? then c :: plainWord inFlow rest else []

/-- What separates two words of a plain scalar. -/
inductive PlainGap where
  /-- The scalar ends; `lineEnded` says whether a line end was passed. -/
  | stop (lineEnded : Bool)
  | blanks (text : List Char)
  | breaks (text : List Char)

/-- The empty lines behind a line end in a plain scalar; none before a separator. -/
def plainBreaks : (fuel : Nat) → Cursor → Option (List Char) × Cursor
  | 0, cursor => (none, cursor)
  | fuel + 1, cursor =>
    if cursor.peek == some ' ' then plainBreaks fuel cursor.advance
    else
      match cursor.lineBreak? with
      | none => (some [], cursor)
      | some (c, cursor) =>
        if cursor.atSeparator then (none, cursor)
        else
          let (breaks, cursor) := plainBreaks fuel cursor
          (breaks.map (c :: ·), cursor)

def plainGap (fuel : Nat) (cursor : Cursor) : PlainGap × Cursor :=
  let (blanks, cursor) := cursor.span (· == ' ')
  match cursor.lineBreak? with
  | none => (if blanks.isEmpty then .stop false else .blanks blanks, cursor)
  | some (first, cursor) =>
    if cursor.atSeparator then (.stop true, cursor)
    else
      let (breaks, cursor) := plainBreaks fuel cursor
      match breaks with
      | none => (.stop true, cursor)
      | some breaks => (.breaks (foldBreaks first breaks), cursor)

/-- The text of a plain scalar, the place behind it and the blanks that follow, and
whether a line end is among these. -/
def readPlain (inFlow : Bool) (indent : Int) : (fuel : Nat) → Cursor → List Char × Cursor × Bool
  | 0, cursor => ([], cursor, false)
  | fuel + 1, cursor =>
    let word := plainWord inFlow cursor.rest
    let (gap, behind) := plainGap fuel (cursor.skip word.length)
    let goesOn := behind.peek != some '#' && (inFlow || indent ≤ behind.column)
      && !(plainWord inFlow behind.rest).isEmpty
    match gap with
    | .stop lineEnded => (word, behind, lineEnded)
    | .blanks text =>
      if goesOn then
        let (more, cursor, lineEnded) := readPlain inFlow indent fuel behind
        (word ++ text ++ more, cursor, lineEnded)
      else (word, behind, false)
    | .breaks text =>
      if goesOn then
        let (more, cursor, lineEnded) := readPlain inFlow indent fuel behind
        (word ++ text ++ more, cursor, lineEnded)
      else (word, behind, true)

/-- What happens to the line ends at the end of a block scalar. -/
inductive Chomping where
  | clip
  | strip
  | keep
  deriving DecidableEq, Repr

def chomping? (c : Char) : Option Chomping :=
  if c == '+' then some .keep else if c == '-' then some .strip else none

/-- An indentation indicator: one digit that is not zero. -/
def increment? (c : Char) : Option Nat :=
  if c.isDigit then some (c.toNat - 48) else none

/-- The indicators behind the mark of a block scalar, in either order. -/
def readIndicators (cursor : Cursor) : Except Fault (Chomping × Option Nat × Cursor) :=
  let first := cursor.peek.bind chomping?
  let cursor := if first.isSome then cursor.advance else cursor
  let increment := cursor.peek.bind increment?
  let cursor := if increment.isSome then cursor.advance else cursor
  let second := if first.isNone && increment.isSome then cursor.peek.bind chomping? else none
  let cursor := if second.isSome then cursor.advance else cursor
  if increment == some 0 || !endsField cursor.peek then .error .malformed
  else .ok ((first.or second).getD .clip, increment, cursor)

/-- The empty lines before the first line of a block scalar and the widest
indentation among them. -/
def blockIndentation : (fuel : Nat) → (widest : Nat) → Cursor → List Char × Nat × Cursor
  | 0, widest, cursor => ([], widest, cursor)
  | fuel + 1, widest, cursor =>
    if cursor.peek == some ' ' then
      let cursor := cursor.advance
      blockIndentation fuel (max widest cursor.column) cursor
    else
      match cursor.lineBreak? with
      | none => ([], widest, cursor)
      | some (c, cursor) =>
        let (breaks, widest, cursor) := blockIndentation fuel widest cursor
        (c :: breaks, widest, cursor)

/-- The empty lines before the next line of a block scalar, and its indentation. -/
def blockBreaks (indent : Nat) : (fuel : Nat) → Cursor → List Char × Cursor
  | 0, cursor => ([], cursor)
  | fuel + 1, cursor =>
    let cursor := cursor.skipIndent indent (fuel + 1)
    match cursor.lineBreak? with
    | none => ([], cursor)
    | some (c, cursor) =>
      let (breaks, cursor) := blockBreaks indent fuel cursor
      (c :: breaks, cursor)

def isBlankStart : Option Char → Bool
  | some c => c == ' ' || c == '\t'
  | none => false

/-- The lines of a block scalar from one with content on, given the empty lines
before it. -/
def blockLines (folded : Bool) (chomping : Chomping) (indent : Nat) :
    (fuel : Nat) → (breaks : List Char) → Cursor → List Char × Cursor
  | 0, _, cursor => ([], cursor)
  | fuel + 1, breaks, cursor =>
    let startsBlank := isBlankStart cursor.peek
    let (line, cursor) := cursor.span (!isBreak ·)
    let (lineEnd, cursor) :=
      match cursor.lineBreak? with
      | some (c, cursor) => ([c], cursor)
      | none => ([], cursor)
    let (next, cursor) := blockBreaks indent fuel cursor
    if cursor.column == indent && cursor.peek.isSome then
      let joint :=
        if folded && lineEnd == ['\n'] && !startsBlank && !isBlankStart cursor.peek then
          if next.isEmpty then [' '] else []
        else lineEnd
      let (more, cursor) := blockLines folded chomping indent fuel next cursor
      (breaks ++ line ++ joint ++ more, cursor)
    else
      let tail :=
        match chomping with
        | .strip => []
        | .clip => lineEnd
        | .keep => lineEnd ++ next
      (breaks ++ line ++ tail, cursor)

/-- A block scalar whose mark is already read; `parent` is the indentation around it. -/
def readBlock (folded : Bool) (parent : Int) (fuel : Nat) (cursor : Cursor) :
    Except Fault (List Char × Cursor) := do
  let (chomping, increment, cursor) ← readIndicators cursor
  let cursor := cursor.skipComment
  if !endsLine cursor.peek then .error .malformed
  else
    let cursor := (cursor.lineBreak?.map (·.2)).getD cursor
    let least := (max (parent + 1) 1).toNat
    let (breaks, indent, cursor) :=
      match increment with
      | none =>
        let (breaks, widest, cursor) := blockIndentation fuel 0 cursor
        (breaks, max least widest, cursor)
      | some n =>
        let indent := least + n - 1
        let (breaks, cursor) := blockBreaks indent fuel cursor
        (breaks, indent, cursor)
    if cursor.column == indent && cursor.peek.isSome then
      return blockLines folded chomping indent fuel breaks cursor
    else return (if chomping == .keep then breaks else [], cursor)

end Fakery.Yaml
