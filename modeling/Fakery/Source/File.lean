import Fakery.Source.Lift

/-!
# Source files

`parse` reads the type declarations of a source text, or finds that the text is
not well formed.
-/

namespace Fakery

/-- The type declarations of a file in the order of the text. -/
def parse (language : Language) (source : List Char) : Except SyntaxError (List TypeDecl) :=
  let root := language.tree (Text.Utf8.encode source)
  if root.hasError then .error (root.firstSyntaxError source)
  else do
    let (direct, conditional) := separate 0 (← root.innerItems source)
    return ((direct ++ conditional).filterMap Member.typeDecl?).mergeSort
      fun a b => a.header.start ≤ b.header.start

end Fakery
