import Fakery.Text.Alphabet

/-!
# Tokens of a source text

A token is a word, a number, a whole string literal, a single punctuation
character, a comment, or a compiler directive.  It records its place and what
separates it from the token before it; comments count as separation and are
tokens of their own.
-/

namespace Fakery

/-- What stands between two tokens, by growing strength. -/
inductive Gap where
  | tight
  | blank
  | comment
  | line
  deriving DecidableEq, Repr, Inhabited

namespace Gap

def rank : Gap → Nat
  | .tight => 0
  | .blank => 1
  | .comment => 2
  | .line => 3

/-- The stronger of two separations. -/
def join (a b : Gap) : Gap :=
  if a.rank ≤ b.rank then b else a

end Gap

inductive TokenKind where
  | word
  | number
  | string
  | symbol
  | comment
  | directive
  deriving DecidableEq, Repr, Inhabited

structure Token where
  kind : TokenKind
  text : List Char
  start : Nat
  gap : Gap
  deriving DecidableEq, Repr, Inhabited

namespace Token

def stop (token : Token) : Nat :=
  token.start + token.text.length

/-- Comments and directives may stand anywhere and mean nothing to a declaration. -/
def isTrivia (token : Token) : Bool :=
  token.kind == .comment || token.kind == .directive

end Token

namespace Lexeme

/-- White space between tokens. -/
def isSpace (c : Char) : Bool :=
  let n := c.toNat
  (9 ≤ n && n ≤ 13) || n == 32 || n == 0x85 || n == 0xA0 || n == 0x1680
    || (0x2000 ≤ n && n ≤ 0x200A) || n == 0x2028 || n == 0x2029 || n == 0x202F
    || n == 0x205F || n == 0x3000

def isNewline (c : Char) : Bool :=
  c == '\n' || c == '\r'

/-- Characters above ASCII that words may hold: letters and numbers, and beyond
the Latin blocks everything but white space, general punctuation and the byte
order mark. -/
def isExtendedWord (c : Char) : Bool :=
  let n := c.toNat
  Text.isWord c || n == 0xA9 || n == 0xAE || n == 0xB7
    || (0x300 ≤ n && !isSpace c && n != 0xFEFF
      && (!(0x2000 ≤ n && n ≤ 0x206F) || n == 0x200D || n == 0x203C || n == 0x2049))

def isWordStart (c : Char) : Bool :=
  if c.toNat < 128 then c.isAlpha || c == '_' || c == '$' else isExtendedWord c

def isWordPart (c : Char) : Bool :=
  if c.toNat < 128 then c.isAlphanum || c == '_' || c == '$' else isExtendedWord c

/-- Punctuation and operator characters. -/
def isSymbol (c : Char) : Bool :=
  "()[]\x7b\x7d,:;.@=+-*/%<>!?&|^~\\#".toList.contains c

/-- What a string literal may be in the middle of.  `skip` passes over characters
whose meaning is already settled. -/
inductive Frame where
  | quoted (hashes : Nat) (multiline : Bool)
  | interpolation (depth : Nat)
  | lineComment
  | blockComment (depth : Nat)
  | skip (count : Nat)
  deriving DecidableEq, Repr

def startsWithHashes (count : Nat) (cs : List Char) : Bool :=
  cs.take count == List.replicate count '#'

/-- The frame a string literal opens with and the length of its opening marks. -/
def openingQuote? (cs : List Char) : Option (Frame × Nat) :=
  let hashes := (cs.takeWhile (· == '#')).length
  match cs.drop hashes with
  | '"' :: '"' :: '"' :: _ => some (.quoted hashes true, hashes + 3)
  | '"' :: _ => some (.quoted hashes false, hashes + 1)
  | _ => none

/-- The length of the closing marks that the text starts with, if it starts with
those of a literal with this many hashes. -/
def closingQuote? (hashes : Nat) (multiline : Bool) (cs : List Char) : Option Nat :=
  let marks := if multiline then ['"', '"', '"'] else ['"']
  if marks.isPrefixOf cs && startsWithHashes hashes (cs.drop marks.length) then
    some (marks.length + hashes)
  else none

/-- The length of a literal or comment whose open frames are given, counted from
`length`.  None if the text ends inside it or a line ends inside a single-line
literal. -/
def enclosedLength (length : Nat) : List Char → List Frame → Option Nat
  | _, [] => some length
  | [], _ => none
  | _ :: rest, .skip count :: frames =>
    if count ≤ 1 then enclosedLength (length + 1) rest frames
    else enclosedLength (length + 1) rest (.skip (count - 1) :: frames)
  | c :: rest, .quoted hashes multiline :: frames =>
    match closingQuote? hashes multiline (c :: rest) with
    | some marks =>
      if marks == 1 then enclosedLength (length + 1) rest frames
      else enclosedLength (length + 1) rest (.skip (marks - 1) :: frames)
    | none =>
      if c == '\\' && startsWithHashes hashes rest then
        let inside := .quoted hashes multiline :: frames
        match rest.drop hashes with
        | '(' :: _ =>
          enclosedLength (length + 1) rest (.skip (hashes + 1) :: .interpolation 0 :: inside)
        | _ => enclosedLength (length + 1) rest (.skip (hashes + 1) :: inside)
      else if isNewline c && !multiline then none
      else enclosedLength (length + 1) rest (.quoted hashes multiline :: frames)
  | c :: rest, .interpolation depth :: frames =>
    if c == '(' then enclosedLength (length + 1) rest (.interpolation (depth + 1) :: frames)
    else if c == ')' then
      if depth == 0 then enclosedLength (length + 1) rest frames
      else enclosedLength (length + 1) rest (.interpolation (depth - 1) :: frames)
    else
      let inside := .interpolation depth :: frames
      match openingQuote? (c :: rest) with
      | some (frame, marks) =>
        if marks == 1 then enclosedLength (length + 1) rest (frame :: inside)
        else enclosedLength (length + 1) rest (.skip (marks - 1) :: frame :: inside)
      | none =>
        if c == '/' && rest.head? == some '/' then
          enclosedLength (length + 1) rest (.lineComment :: inside)
        else if c == '/' && rest.head? == some '*' then
          enclosedLength (length + 1) rest (.skip 1 :: .blockComment 0 :: inside)
        else enclosedLength (length + 1) rest inside
  | c :: rest, .lineComment :: frames =>
    if c == '\n' then enclosedLength (length + 1) rest frames
    else enclosedLength (length + 1) rest (.lineComment :: frames)
  | c :: rest, .blockComment depth :: frames =>
    if c == '*' && rest.head? == some '/' then
      let outside := if depth == 0 then frames else .blockComment (depth - 1) :: frames
      enclosedLength (length + 1) rest (.skip 1 :: outside)
    else if c == '/' && rest.head? == some '*' then
      enclosedLength (length + 1) rest (.skip 1 :: .blockComment (depth + 1) :: frames)
    else enclosedLength (length + 1) rest (.blockComment depth :: frames)

/-- The length of a number: digits and letters, a fraction, and a signed exponent. -/
def numberLength (cs : List Char) : Nat :=
  let isPart := fun c : Char => c.isAlphanum || c == '_'
  let signed (length : Nat) : Nat :=
    match (cs.take length).getLast?, cs.drop length with
    | some e, sign :: d :: rest =>
      if (e == 'e' || e == 'E' || e == 'p' || e == 'P') && (sign == '-' || sign == '+')
          && d.isDigit && !((cs.take 2).getLast? == some 'x' && (e == 'e' || e == 'E')) then
        length + 2 + (rest.takeWhile isPart).length
      else length
    | _, _ => length
  let whole := (cs.takeWhile isPart).length
  match cs.drop whole with
  | '.' :: d :: rest =>
    if d.isDigit then signed (whole + 2 + (rest.takeWhile isPart).length) else signed whole
  | _ => signed whole

/-- The length of a directive: the rest of its line up to a comment. -/
def directiveLength : List Char → Nat
  | [] => 0
  | '/' :: '/' :: _ => 0
  | '/' :: '*' :: _ => 0
  | c :: rest => if isNewline c then 0 else 1 + directiveLength rest

def lineLength (cs : List Char) : Nat :=
  (cs.takeWhile (· != '\n')).length

/-- A word that begins with a hash: a directive, a message to the compiler, or a
name like `#file`. -/
def hashWord? (cs : List Char) : Option (TokenKind × Nat) :=
  let name := (cs.drop 1).takeWhile isWordPart
  if name.isEmpty then none
  else if ["if", "elseif", "else", "endif"].contains (String.ofList name) then
    some (.directive, directiveLength cs)
  else if ["error", "warning", "sourceLocation"].contains (String.ofList name) then
    some (.comment, lineLength cs)
  else some (.word, 1 + name.length)

/-- The kind and the length of the token a text begins with. -/
def first? (cs : List Char) : Option (TokenKind × Nat) :=
  match cs with
  | [] => none
  | c :: rest =>
    if c == '/' && rest.head? == some '/' then some (.comment, lineLength cs)
    else if c == '/' && rest.head? == some '*' then
      (enclosedLength 0 cs [.skip 2, .blockComment 0]).map (TokenKind.comment, ·)
    else
      match openingQuote? cs with
      | some (frame, marks) =>
        (enclosedLength 0 cs [.skip marks, frame]).map (TokenKind.string, ·)
      | none =>
        if c == '#' then
          match hashWord? cs with
          | some found => some found
          | none => some (.symbol, 1)
        else if c == '`' then
          match rest.span (fun c => c != '`' && !isNewline c) with
          | (name, '`' :: _) => if name.isEmpty then none else some (.word, name.length + 2)
          | _ => none
        else if c.isDigit then some (.number, numberLength cs)
        else if isWordStart c then some (.word, (cs.takeWhile isWordPart).length)
        else if isSymbol c then some (.symbol, 1)
        else none

end Lexeme

namespace Token

/-- The separation that a token leaves behind it: none, except that comments join
the separation before them. -/
def gapAfter (token : Token) : Gap :=
  if token.isTrivia then
    token.gap.join (if token.text.any Lexeme.isNewline then .line else .comment)
  else .tight

/-- The tokens of a text that begins at offset `start` behind a separation. -/
def scanFrom : (fuel start : Nat) → Gap → List Char → Option (List Token)
  | _, _, _, [] => some []
  | 0, _, _, _ :: _ => none
  | fuel + 1, start, gap, c :: rest =>
    if Lexeme.isSpace c then
      scanFrom fuel (start + 1) (gap.join (if Lexeme.isNewline c then .line else .blank)) rest
    else
      match Lexeme.first? (c :: rest) with
      | none => none
      | some (kind, length) =>
        let token : Token := ⟨kind, (c :: rest).take length, start, gap⟩
        (scanFrom fuel (start + length) token.gapAfter ((c :: rest).drop length)).map
          (token :: ·)

/-- The tokens of a source text.  A byte order mark or an interpreter line at its
very beginning is passed over. -/
def scan (source : List Char) : Option (List Token) :=
  match source with
  | '\ufeff' :: rest => scanFrom rest.length 1 .line rest
  | '#' :: '!' :: _ =>
    let length := Lexeme.lineLength source
    scanFrom source.length length .line (source.drop length)
  | _ => scanFrom source.length 0 .line source

end Token

end Fakery
