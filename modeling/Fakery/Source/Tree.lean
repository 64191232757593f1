import Fakery.Source.Token

/-!
# Bracket groups

Tokens grouped by round, square and curly brackets.  Angle brackets are left to
the readers, because they are operators too.
-/

namespace Fakery

inductive Bracket where
  | round
  | square
  | curly
  deriving DecidableEq, Repr, Inhabited

/-- A token, or a group with its opening and its closing bracket. -/
inductive Tree where
  | leaf (token : Token)
  | group (bracket : Bracket) (opening : Token) (body : List Tree) (closing : Token)
  deriving Repr, Inhabited

namespace Tree

def start : Tree → Nat
  | .leaf token => token.start
  | .group _ opening _ _ => opening.start

def stop : Tree → Nat
  | .leaf token => token.stop
  | .group _ _ _ closing => closing.stop

/-- The separation from the tree before. -/
def gap : Tree → Gap
  | .leaf token => token.gap
  | .group _ opening _ _ => opening.gap

def isTrivia : Tree → Bool
  | .leaf token => token.isTrivia
  | .group .. => false

def word? : Tree → Option String
  | .leaf ⟨.word, text, _, _⟩ => some (String.ofList text)
  | _ => none

def symbol? : Tree → Option Char
  | .leaf ⟨.symbol, [c], _, _⟩ => some c
  | _ => none

def isSymbol (c : Char) (tree : Tree) : Bool :=
  tree.symbol? == some c

def isWord (word : String) (tree : Tree) : Bool :=
  tree.word? == some word

/-- The contents of a group of one kind of bracket. -/
def body? (bracket : Bracket) : Tree → Option (List Tree)
  | .group b _ body _ => if b == bracket then some body else none
  | .leaf _ => none

def opener? (token : Token) : Option Bracket :=
  if token.kind == .symbol then
    match token.text with
    | ['('] => some .round
    | ['['] => some .square
    | ['\x7b'] => some .curly
    | _ => none
  else none

def closer? (token : Token) : Option Bracket :=
  if token.kind == .symbol then
    match token.text with
    | [')'] => some .round
    | [']'] => some .square
    | ['\x7d'] => some .curly
    | _ => none
  else none

/-- Groups tokens by brackets.  `pending` holds the groups still open, each with the
trees read before it in reverse; `done` holds the trees of the innermost group in
reverse.  None if brackets do not match. -/
def groupFrom : List Token → (pending : List (Bracket × Token × List Tree)) →
    (done : List Tree) → Option (List Tree)
  | [], [], done => some done.reverse
  | [], _ :: _, _ => none
  | token :: rest, pending, done =>
    match opener? token with
    | some bracket => groupFrom rest ((bracket, token, done) :: pending) []
    | none =>
      match closer? token with
      | some bracket =>
        match pending with
        | (expected, opening, before) :: pending =>
          if bracket == expected then
            groupFrom rest pending (.group bracket opening done.reverse token :: before)
          else none
        | [] => none
      | none => groupFrom rest pending (.leaf token :: done)

def ofTokens? (tokens : List Token) : Option (List Tree) :=
  groupFrom tokens [] []

/-- Words that never end a block. -/
def leadingWords : List String := [
  "let", "var", "func", "struct", "enum", "protocol", "extension", "typealias", "import", "if",
  "guard", "while", "for", "switch", "throw"]

/-- Whether the last significant tree asks for more behind it.  A word behind a point
is a member and asks for nothing. -/
def endsOpen (trees : List Tree) : Bool :=
  match (trees.filter (!·.isTrivia)).reverse with
  | [] => false
  | last :: before =>
    last.isSymbol '=' || last.isSymbol ','
      || ((last.word?.map leadingWords.contains).getD false
        && !((before.head?.map (isSymbol '.')).getD false))

mutual

/-- Whether no block in a tree ends open. -/
def isComplete : Tree → Bool
  | .leaf _ => true
  | .group bracket _ body _ => !(bracket == .curly && endsOpen body) && areComplete body

def areComplete : List Tree → Bool
  | [] => true
  | tree :: rest => tree.isComplete && areComplete rest

end

/-- The bracket groups of a source text.  None if brackets do not match or a block
ends open. -/
def ofSource? (source : List Char) : Option (List Tree) :=
  ((Token.scan source).bind ofTokens?).filter areComplete

mutual

def size : Tree → Nat
  | .leaf _ => 1
  | .group _ _ body _ => 2 + sizes body

/-- The number of tokens in a list of trees. -/
def sizes : List Tree → Nat
  | [] => 0
  | tree :: rest => tree.size + sizes rest

end

/-- Drops leading comments and directives. -/
def significant (trees : List Tree) : List Tree :=
  trees.dropWhile isTrivia

/-- The source text from the first to the last significant tree. -/
def span? (trees : List Tree) : Option (Nat × Nat) :=
  match trees.filter (!·.isTrivia) with
  | [] => none
  | first :: rest => some (first.start, (rest.getLast?.getD first).stop)

/-- What was read of a list of trees when `rest` is left. -/
def readPart (trees rest : List Tree) : List Tree :=
  trees.take (trees.length - rest.length)

end Tree

/-- The text between two offsets of a source, as a string. -/
def sourceText (source : List Char) (start stop : Nat) : String :=
  String.ofList ((source.take stop).drop start)

end Fakery
