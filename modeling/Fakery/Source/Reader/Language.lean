import Fakery.Source.Reader.Declarations

/-!
# The language of the reader

The reader gives a syntax tree for every text.  It does not say what is wrong with a text that
it cannot read: the whole text is one error then.
-/

namespace Fakery

/-- The row of a character offset, and the bytes before it in that row. -/
def pointAt (source : List Char) (offset : Nat) : Point :=
  let before := source.take offset
  ⟨before.count '\n', (Text.Utf8.encode (before.reverse.takeWhile (· != '\n'))).length⟩

namespace SyntaxNode

mutual

/-- A node whose offsets count bytes, made from one whose offsets count characters. -/
def encoded (source : List Char) : SyntaxNode → SyntaxNode
  | ⟨kind, field, isNamed, isMissing, start, stop, _, children⟩ =>
    ⟨kind, field, isNamed, isMissing, (Text.Utf8.encode (source.take start)).length,
      (Text.Utf8.encode (source.take stop)).length, pointAt source start,
      encodedAll source children⟩

def encodedAll (source : List Char) : List SyntaxNode → List SyntaxNode
  | [] => []
  | child :: rest => child.encoded source :: encodedAll source rest

end

end SyntaxNode

namespace Reader

/-- The nodes at the top of a file.  The fuel is more than there are tokens. -/
def fileNodes? (source : List Char) : Option (List SyntaxNode) := do
  let trees ← Tree.ofSource? source
  readItems (8 * Tree.sizes trees + 16) .file trees

/-- The tree of a text, with offsets that count characters. -/
def fileNode (source : List Char) : SyntaxNode :=
  nodeOf "source_file" 0 source.length
    ((fileNodes? source).getD [nodeOf "ERROR" 0 source.length []])

end Reader

/-- The language as the reader understands it. -/
def swift : Language where
  tree data :=
    match Text.Utf8.decode data with
    | .ok source => (Reader.fileNode source).encoded source
    | .error _ => Reader.nodeOf "ERROR" 0 data.length []

end Fakery
