import Fakery.Text.Utf8

/-!
# Syntax trees

A concrete syntax tree of a source text, as a parser of the whole language gives it.  A node
has a kind, the field that it fills in its parent, and its place in the encoded text; offsets
count bytes, and rows and columns count from zero.  A language is anything that reads encoded
texts into such trees.
-/

namespace Fakery

/-- A place in a text: its row, and the bytes before it in that row. -/
structure Point where
  row : Nat
  column : Nat
  deriving DecidableEq, Repr, Inhabited

structure SyntaxNode where
  kind : String
  /-- The field of the parent that the node fills. -/
  field : Option String
  /-- Tokens that are punctuation or keywords have no name. -/
  isNamed : Bool
  /-- A missing node was put in to go on behind an error. -/
  isMissing : Bool
  startByte : Nat
  endByte : Nat
  startPoint : Point
  children : List SyntaxNode

/-- A parser of a whole language. -/
structure Language where
  tree : List UInt8 → SyntaxNode

namespace SyntaxNode

/-- A node over text that could not be read. -/
def isError (node : SyntaxNode) : Bool :=
  node.kind == "ERROR"

/-- What a parser reports: text that could not be read, or something that is missing. -/
def isFault (node : SyntaxNode) : Bool :=
  node.isError || node.isMissing

mutual

/-- Whether a node is an error or missing, or contains one that is. -/
def hasError : SyntaxNode → Bool
  | ⟨kind, _, _, isMissing, _, _, _, children⟩ =>
    kind == "ERROR" || isMissing || anyHasError children

def anyHasError : List SyntaxNode → Bool
  | [] => false
  | child :: rest => child.hasError || anyHasError rest

end

mutual

def firstError? : SyntaxNode → Option SyntaxNode
  | node@⟨_, _, _, _, _, _, _, children⟩ =>
    if node.isFault then some node else firstErrorIn? children

def firstErrorIn? : List SyntaxNode → Option SyntaxNode
  | [] => none
  | child :: rest =>
    if child.hasError || child.isMissing then child.firstError?.or (firstErrorIn? rest)
    else firstErrorIn? rest

end

def namedChildren (node : SyntaxNode) : List SyntaxNode :=
  node.children.filter (·.isNamed)

def childrenOf (node : SyntaxNode) (field : String) : List SyntaxNode :=
  node.children.filter (·.field == some field)

def child? (node : SyntaxNode) (field : String) : Option SyntaxNode :=
  node.children.find? (·.field == some field)

/-- Comments and messages to the compiler, which may stand anywhere. -/
def isTrivia (node : SyntaxNode) : Bool :=
  ["comment", "multiline_comment", "diagnostic"].contains node.kind

end SyntaxNode

end Fakery
