import Fakery.Yaml.Mark

/-!
# Tokens of a YAML text

Indentation is turned into tokens that begin and end block collections.  A scalar
may turn out to be a key only when the colon behind it is read; the key's tokens
are then put in before it.
-/

namespace Fakery.Yaml

inductive Token where
  | directive (directive : Directive)
  | documentStart
  | documentEnd
  | blockSequenceStart
  | blockMappingStart
  | blockEnd
  | flowSequenceStart
  | flowSequenceEnd
  | flowMappingStart
  | flowMappingEnd
  | blockEntry
  | flowEntry
  | key
  | value
  | alias (name : String)
  | anchor (name : String)
  | tag (tag : WrittenTag)
  | scalar (text : String) (plain : Bool)
  deriving DecidableEq, Repr

/-- A token that may be the beginning of a key: the number of tokens before it, its
place, and whether it must be one. -/
structure PendingKey where
  before : Nat
  required : Bool
  index : Nat
  line : Nat
  column : Nat

/-- A scan in progress.  `tokens` holds the newest token first; `keys` holds at most
one pending key for each depth of flow collections. -/
structure Scan where
  cursor : Cursor
  depth : Nat := 0
  indent : Int := -1
  indents : List Int := []
  keyAllowed : Bool := true
  keys : List (Nat × PendingKey) := []
  tokens : List Token := []

namespace Scan

def push (scan : Scan) (token : Token) : Scan :=
  { scan with tokens := token :: scan.tokens }

/-- Puts a token in before the last `count` ones. -/
def insertBefore (scan : Scan) (count : Nat) (token : Token) : Scan :=
  { scan with tokens := scan.tokens.take count ++ token :: scan.tokens.drop count }

/-- Ends the block collections that are indented more than a column. -/
def unwindFrom (column : Int) : List Int → Scan → Scan
  | [], scan => scan
  | outer :: indents, scan =>
    if scan.depth == 0 && column < scan.indent then
      unwindFrom column indents ({ scan with indent := outer, indents }.push .blockEnd)
    else scan

def unwind (column : Int) (scan : Scan) : Scan :=
  unwindFrom column scan.indents scan

/-- Begins a block collection if a column is beyond the indentation. -/
def openBlock (column : Int) (token : Token) (count : Nat) (scan : Scan) : Scan :=
  if scan.indent < column then
    { scan with indent := column, indents := scan.indent :: scan.indents }.insertBefore count token
  else scan

/-- Gives up the pending key of this depth. -/
def dropKey (scan : Scan) : Except Fault Scan :=
  match scan.keys.lookup scan.depth with
  | some pending =>
    if pending.required then .error .malformed
    else .ok { scan with keys := scan.keys.filter (·.1 != scan.depth) }
  | none => .ok scan

/-- Gives up pending keys that are on an earlier line or too far away. -/
def dropStale (scan : Scan) : Except Fault Scan :=
  let isStale := fun (pending : PendingKey) =>
    pending.line != scan.cursor.line || 1024 < scan.cursor.index - pending.index
  if scan.keys.any fun (_, pending) => isStale pending && pending.required then .error .malformed
  else .ok { scan with keys := scan.keys.filter fun (_, pending) => !isStale pending }

/-- Marks the next token as a possible key. -/
def saveKey (scan : Scan) : Except Fault Scan :=
  if scan.keyAllowed then do
    let column := scan.cursor.column
    let pending : PendingKey := {
      before := scan.tokens.length
      required := scan.depth == 0 && scan.indent == column
      index := scan.cursor.index
      line := scan.cursor.line
      column }
    let scan ← scan.dropKey
    return { scan with keys := (scan.depth, pending) :: scan.keys }
  else .ok scan

/-- Passes blanks, comments and line ends.  A key may begin on a new line. -/
def skipBlanks : (fuel : Nat) → Scan → Scan
  | 0, scan => scan
  | fuel + 1, scan =>
    let cursor := scan.cursor.skipComment
    match cursor.lineBreak? with
    | some (_, cursor) =>
      skipBlanks fuel { scan with cursor, keyAllowed := scan.keyAllowed || scan.depth == 0 }
    | none => { scan with cursor }

/-- A token of one character that needs no key before it. -/
def pushChar (scan : Scan) (token : Token) (keyAllowed : Bool) : Scan :=
  { scan with cursor := scan.cursor.advance, keyAllowed }.push token

/-- Directives and document separators stand outside all blocks. -/
def leaveBlocks (scan : Scan) : Except Fault Scan := do
  let scan ← (scan.unwind (-1)).dropKey
  return { scan with keyAllowed := false }

def scanOpening (scan : Scan) (token : Token) : Except Fault Scan := do
  let scan ← scan.saveKey
  return { scan with depth := scan.depth + 1 }.pushChar token true

def scanClosing (scan : Scan) (token : Token) : Except Fault Scan := do
  let scan ← scan.dropKey
  if scan.depth == 0 then .error .malformed
  else return { scan with depth := scan.depth - 1 }.pushChar token false

/-- The mark of an entry or of a key; outside flow collections it may begin a block. -/
def scanIndicator (scan : Scan) (start token : Token) (keyAllowed : Bool) : Except Fault Scan := do
  if scan.depth == 0 && !scan.keyAllowed then .error .malformed
  else
    let scan := if scan.depth == 0 then scan.openBlock scan.cursor.column start 0 else scan
    let scan ← scan.dropKey
    return scan.pushChar token keyAllowed

/-- A colon makes the pending key a key; without one it stands for an explicit or an
empty key. -/
def scanValue (scan : Scan) : Except Fault Scan := do
  match scan.keys.lookup scan.depth with
  | some pending =>
    let count := scan.tokens.length - pending.before
    let scan := { scan with keys := scan.keys.filter (·.1 != scan.depth) }.insertBefore count .key
    let scan :=
      if scan.depth == 0 then scan.openBlock pending.column .blockMappingStart (count + 1) else scan
    return scan.pushChar .value false
  | none => scan.scanIndicator .blockMappingStart .value (scan.depth == 0)

/-- A token that may be a key and is read by a reader of its own. -/
def scanKeyable (scan : Scan) (read : Cursor → Except Fault (Token × Cursor)) :
    Except Fault Scan := do
  let scan ← scan.saveKey
  let (token, cursor) ← read scan.cursor
  return { scan with cursor, keyAllowed := false }.push token

def scanBlockScalar (fuel : Nat) (folded : Bool) (scan : Scan) : Except Fault Scan := do
  let scan ← scan.dropKey
  let (text, cursor) ← readBlock folded scan.indent fuel scan.cursor.advance
  return { scan with cursor, keyAllowed := true }.push (.scalar (String.ofList text) false)

def scanQuoted (fuel : Nat) (double : Bool) (scan : Scan) : Except Fault Scan :=
  scan.scanKeyable fun cursor =>
    (readQuoted double fuel cursor.advance).map fun (text, cursor) =>
      (.scalar (String.ofList text) false, cursor)

def scanPlain (fuel : Nat) (scan : Scan) : Except Fault Scan := do
  let scan ← scan.saveKey
  let (text, cursor, lineEnded) := readPlain (scan.depth != 0) (scan.indent + 1) fuel scan.cursor
  return { scan with cursor, keyAllowed := lineEnded }.push (.scalar (String.ofList text) true)

/-- Whether a plain scalar may begin with a character. -/
def startsPlain (depth : Nat) (c : Char) (next : Option Char) : Bool :=
  !(endsWord (some c) || "-?:,[]\x7b\x7d#&*!|>'\"%@\x60".toList.contains c)
    || (!endsWord next && (c == '-' || (depth == 0 && (c == '?' || c == ':'))))

def scanToken (fuel : Nat) (scan : Scan) (c : Char) : Except Fault Scan :=
  let cursor := scan.cursor
  let next := cursor.peekAt 1
  let inFlow := scan.depth != 0
  if c == '%' && cursor.column == 0 then do
    let scan ← scan.leaveBlocks
    let (directive, cursor) ← readDirective fuel scan.cursor.advance
    return { scan with cursor }.push (.directive directive)
  else if cursor.column == 0 && cursor.atMarks '-' then do
    let scan ← scan.leaveBlocks
    return { scan with cursor := cursor.skip 3 }.push .documentStart
  else if cursor.column == 0 && cursor.atMarks '.' then do
    let scan ← scan.leaveBlocks
    return { scan with cursor := cursor.skip 3 }.push .documentEnd
  else if c == '[' then scan.scanOpening .flowSequenceStart
  else if c == '\x7b' then scan.scanOpening .flowMappingStart
  else if c == ']' then scan.scanClosing .flowSequenceEnd
  else if c == '\x7d' then scan.scanClosing .flowMappingEnd
  else if c == ',' then do
    let scan ← scan.dropKey
    return scan.pushChar .flowEntry true
  else if c == '-' && endsWord next then scan.scanIndicator .blockSequenceStart .blockEntry true
  else if c == '?' && (inFlow || endsWord next) then
    scan.scanIndicator .blockMappingStart .key (!inFlow)
  else if c == ':' && (inFlow || endsWord next) then scan.scanValue
  else if c == '*' then
    scan.scanKeyable fun cursor =>
      (readAnchor cursor.advance).map fun (name, cursor) => (.alias name, cursor)
  else if c == '&' then
    scan.scanKeyable fun cursor =>
      (readAnchor cursor.advance).map fun (name, cursor) => (.anchor name, cursor)
  else if c == '!' then
    scan.scanKeyable fun cursor =>
      (readTag fuel cursor).map fun (tag, cursor) => (.tag tag, cursor)
  else if c == '|' && !inFlow then scan.scanBlockScalar fuel false
  else if c == '>' && !inFlow then scan.scanBlockScalar fuel true
  else if c == '\x27' then scan.scanQuoted fuel false
  else if c == '"' then scan.scanQuoted fuel true
  else if startsPlain scan.depth c next then scan.scanPlain fuel
  else .error .malformed

/-- Reads tokens to the end of the text. -/
def run (whole : Nat) : (fuel : Nat) → Scan → Except Fault (List Token)
  | 0, _ => .error .malformed
  | fuel + 1, scan => do
    let scan ← (scan.skipBlanks whole).dropStale
    let scan := scan.unwind scan.cursor.column
    match scan.cursor.peek with
    | none =>
      let scan ← scan.leaveBlocks
      return scan.tokens.reverse
    | some c =>
      let scan ← scan.scanToken whole c
      run whole fuel scan

end Scan

/-- Characters that may stand in a text. -/
def isAllowed (c : Char) : Bool :=
  let n := c.toNat
  n == 9 || n == 10 || n == 13 || (32 ≤ n && n ≤ 126) || n == 0x85 || (0xA0 ≤ n && n ≤ 0xD7FF)
    || (0xE000 ≤ n && n ≤ 0xFFFD) || 0x10000 ≤ n

/-- The tokens of a text; a byte order mark at its beginning is passed over. -/
def Token.scan (text : List Char) : Except Fault (List Token) :=
  if text.all isAllowed then
    let cursor : Cursor := { rest := text }
    let cursor := if text.head? == some '\ufeff' then cursor.advance else cursor
    let fuel := text.length + 2
    Scan.run fuel fuel { cursor }
  else .error .malformed

end Fakery.Yaml
