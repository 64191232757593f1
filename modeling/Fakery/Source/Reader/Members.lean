import Fakery.Source.Reader.Expressions
import Fakery.Source.Syntax

/-!
# Reading members

The parts of a member, each read from the front of a list of trees into nodes of a syntax
tree: attributes and modifiers, the bindings of a property, the elements of a case line, the
parameters of an initializer.  Types and expressions are nodes without children, and the
signatures of members that nobody looks into are passed over.  Offsets count characters
until the whole tree is read.
-/

namespace Fakery.Reader

open Fakery.Tree

/-! ## Nodes -/

def nodeOf (kind : String) (start stop : Nat) (children : List SyntaxNode) : SyntaxNode :=
  ⟨kind, none, true, false, start, stop, ⟨0, 0⟩, children⟩

/-- A token without a name; its kind is its text. -/
def tokenOf (kind : String) (start stop : Nat) : SyntaxNode :=
  ⟨kind, none, false, false, start, stop, ⟨0, 0⟩, []⟩

def treeToken (kind : String) (tree : Tree) : SyntaxNode :=
  tokenOf kind tree.start tree.stop

/-- A node that fills a field of its parent. -/
def filling (field : String) (node : SyntaxNode) : SyntaxNode :=
  { node with field := some field }

/-- A node over the significant trees of a list. -/
def cover? (kind : String) (trees : List Tree) : Option SyntaxNode :=
  (span? trees).map fun (start, stop) => nodeOf kind start stop []

def commentKind (text : List Char) : String :=
  if "//".toList.isPrefixOf text then "comment"
  else if "/*".toList.isPrefixOf text then "multiline_comment"
  else "diagnostic"

def comment? : Tree → Option SyntaxNode
  | .leaf ⟨.comment, text, start, _⟩ =>
    some (nodeOf (commentKind text) start (start + text.length) [])
  | _ => none

/-- The end of what was read when `rest` is left. -/
def stopOf (trees rest : List Tree) : Nat :=
  ((span? (readPart trees rest)).map (·.2)).getD 0

/-- Nodes for the segments of a parenthesis, with the commas between them. -/
def segmentNodes (read : List Tree → Option (List SyntaxNode)) :
    List (List Tree × Option Tree) → Option (List SyntaxNode)
  | [] => some []
  | (segment, comma) :: rest => do
    let nodes ← read segment
    let more ← segmentNodes read rest
    return nodes ++ (comma.map (treeToken ",")).toList ++ more

/-! ## Attributes and modifiers -/

/-- A dotted name with generic clauses, as attributes have it. -/
def afterAttributeName (fuel : Nat) (trees : List Tree) : Option (List Tree) :=
  match significant trees with
  | tree :: rest =>
    if (tree.word?.map isName).getD false then
      let rest := afterDotted rest
      some (match rest with
        | angle :: _ =>
          if angle.isSymbol '<' && angle.gap == .tight then afterArguments fuel rest else rest
        | [] => rest)
    else none
  | [] => none

/-- An argument of an attribute, or the comments that stand in its place. -/
def argumentNodes (segment : List Tree) : List SyntaxNode :=
  match cover? "expression" segment with
  | some value => [value]
  | none => segment.filterMap comment?

/-- An attribute whose `@` is already read. -/
def readAttribute (fuel : Nat) (mark : Tree) (trees : List Tree) :
    Option (SyntaxNode × List Tree) := do
  let rest ← afterAttributeName fuel trees
  let name ← cover? "user_type" (readPart trees rest)
  match significant rest with
  | .group .round opening body closing :: rest' =>
    let inside ← segmentNodes (fun segment => some (argumentNodes segment))
      (segments fuel false body)
    return (nodeOf "attribute" mark.start closing.stop
      (treeToken "@" mark :: name :: tokenOf "(" opening.start opening.stop
        :: (inside ++ [tokenOf ")" closing.start closing.stop])), rest')
  | _ => return (nodeOf "attribute" mark.start name.endByte [treeToken "@" mark, name], rest)

/-- Words that modify a declaration. -/
def modifierWords : List String := [
  "public", "private", "internal", "fileprivate", "open", "package", "final", "static", "lazy",
  "weak", "unowned", "dynamic", "optional", "required", "convenience", "override", "mutating",
  "nonmutating", "nonisolated", "distributed", "prefix", "postfix", "infix", "borrowing",
  "consuming", "__consuming"]

/-- Keywords that begin a member once its modifiers are read. -/
def memberKeywords : List String := [
  "let", "var", "func", "init", "deinit", "subscript", "typealias", "associatedtype", "import",
  "operator", "precedencegroup", "macro", "case", "struct", "class", "actor", "enum",
  "extension", "protocol"]

/-- The argument of a modifier, as in `private(set)`. -/
def isModifierArgument : Tree → Bool
  | .group .round _ [word] _ => ["set", "safe", "unsafe"].contains (word.word?.getD "")
  | _ => false

/-- Reads attributes and modifiers.  The word `indirect` is a token without a name; `class`
is a modifier if another keyword follows. -/
def readPrelude : (fuel : Nat) → List Tree → Option (List SyntaxNode × List Tree)
  | 0, _ => none
  | fuel + 1, trees =>
    match significant trees with
    | [] => some ([], trees)
    | tree :: rest =>
      if tree.isSymbol '@' then do
        let (found, rest) ← readAttribute fuel tree rest
        let (more, rest) ← readPrelude fuel rest
        return (found :: more, rest)
      else
        match tree.word? with
        | none => some ([], trees)
        | some word =>
          let nextWord := ((significant rest).head?.bind Tree.word?).getD ""
          if modifierWords.contains word then do
            let behind :=
              match rest with
              | argument :: rest' => if isModifierArgument argument then rest' else rest
              | [] => rest
            let found ← cover? "member_modifier" (readPart (tree :: rest) behind)
            let (more, rest) ← readPrelude fuel behind
            return (found :: more, rest)
          else if word == "indirect" then do
            let (more, rest) ← readPrelude fuel rest
            return (treeToken word tree :: more, rest)
          else if word == "class"
              && (memberKeywords.contains nextWord || modifierWords.contains nextWord) then do
            let (more, rest) ← readPrelude fuel rest
            return (nodeOf "property_modifier" tree.start tree.stop [] :: more, rest)
          else some ([], trees)

def modifiersNode : List SyntaxNode → List SyntaxNode
  | [] => []
  | first :: rest =>
    [nodeOf "modifiers" first.startByte (rest.getLast?.getD first).endByte (first :: rest)]

/-- Behind attributes that nobody looks at. -/
def afterAttributes : (fuel : Nat) → List Tree → Option (List Tree)
  | 0, _ => none
  | fuel + 1, trees =>
    match significant trees with
    | tree :: rest =>
      if tree.isSymbol '@' then
        match afterAttributeName fuel rest with
        | none => none
        | some rest =>
          match significant rest with
          | .group .round _ _ _ :: rest' => afterAttributes fuel rest'
          | _ => afterAttributes fuel rest
      else some trees
    | [] => some trees

/-! ## Properties -/

def accessorKind? (word : String) : Option String :=
  [("get", "computed_getter"), ("set", "computed_setter"), ("_modify", "computed_modify"),
    ("willSet", "willset_clause"), ("didSet", "didset_clause")].lookup word

/-- The accessors listed in a block, or none if the block is a getter's body. -/
def accessorNodes? : (fuel : Nat) → List Tree → Option (List SyntaxNode)
  | 0, _ => none
  | fuel + 1, body =>
    match afterAttributes fuel body with
    | none => none
    | some body =>
      match significant body with
      | [] => some []
      | tree :: rest =>
        match tree.word? with
        | none => none
        | some word =>
          if word == "mutating" || word == "nonmutating" || word == "__consuming" then
            accessorNodes? fuel rest
          else
            match accessorKind? word with
            | none => none
            | some kind => do
              let behind :=
                match significant rest with
                | .group .round _ _ _ :: rest' => rest'
                | _ => rest
              let behind := afterEffects fuel behind
              let behind :=
                match significant behind with
                | .group .curly _ _ _ :: rest' => rest'
                | _ => behind
              let found ← cover? kind (readPart (tree :: rest) behind)
              let more ← accessorNodes? fuel behind
              return found :: more

/-- The block in braces behind a property. -/
def accessorBlock (fuel : Nat) (block : Tree) (opening : Token) (body : List Tree)
    (closing : Token) : SyntaxNode :=
  let inside := (accessorNodes? fuel body).getD []
  nodeOf (if isObserverBlock block && !inside.isEmpty then "willset_didset_block"
      else "computed_property")
    opening.start closing.stop
    (tokenOf "\x7b" opening.start opening.stop
      :: (inside ++ [tokenOf "\x7d" closing.start closing.stop]))

/-- A lone equals sign. -/
def afterEquals? (trees : List Tree) : Option (Tree × List Tree) :=
  match significant trees with
  | tree :: rest =>
    if tree.isSymbol '=' && !(isTight rest && ((rest.head?.map (isSymbol '=')).getD false)) then
      some (tree, rest)
    else none
  | [] => none

def readType (fuel : Nat) (trees : List Tree) : Option (SyntaxNode × List Tree) := do
  let rest ← afterType fuel trees
  return (← cover? "user_type" (readPart trees rest), rest)

/-- An expression as one node that fills a field. -/
def readExpression (fuel : Nat) (field : String) (trees : List Tree) :
    Option (SyntaxNode × List Tree) := do
  let rest ← afterExpression fuel trees
  return (filling field (← cover? "expression" (readPart trees rest)), rest)

/-- The pattern of a binding: a name, a wildcard or a tuple. -/
def readPattern (trees : List Tree) : Option (SyntaxNode × List Tree) :=
  match significant trees with
  | tree :: rest =>
    let isPattern :=
      match tree with
      | .group .round _ _ _ => true
      | _ => (tree.word?.map fun word => isName word || word == "_").getD false
    if isPattern then some (nodeOf "pattern" tree.start tree.stop [], rest) else none
  | [] => none

/-- The type of a binding, if a colon follows its pattern. -/
def readAnnotation (fuel : Nat) (trees : List Tree) : Option (List SyntaxNode × List Tree) :=
  match significant trees with
  | colon :: behind =>
    if colon.isSymbol ':' then do
      let (type, rest) ← readType fuel behind
      return ([nodeOf "type_annotation" colon.start type.endByte [treeToken ":" colon, type]], rest)
    else some ([], trees)
  | [] => some ([], trees)

/-- The observers behind an initial value. -/
def readObservers (fuel : Nat) (trees : List Tree) : List SyntaxNode × List Tree :=
  match significant trees with
  | .group .curly opening body closing :: behind =>
    let block : Tree := .group .curly opening body closing
    if isObserverBlock block then ([accessorBlock fuel block opening body closing], behind)
    else ([], trees)
  | _ => ([], trees)

def readValue (fuel : Nat) (trees : List Tree) : Option (List SyntaxNode × List Tree) :=
  match afterEquals? trees with
  | some (equals, behind) => do
    let (value, rest) ← readExpression fuel "value" behind
    let (observers, rest) := readObservers fuel rest
    return (treeToken "=" equals :: value :: observers, rest)
  | none =>
    match significant trees with
    | .group .curly opening body closing :: behind =>
      some ([accessorBlock fuel (.group .curly opening body closing) opening body closing], behind)
    | _ => some ([], trees)

def readBinding (fuel : Nat) (trees : List Tree) : Option (List SyntaxNode × List Tree) := do
  let (pattern, rest) ← readPattern trees
  let (typed, rest) ← readAnnotation fuel rest
  let (value, rest) ← readValue fuel rest
  return (pattern :: (typed ++ value), rest)

def readBindings : (fuel : Nat) → List Tree → Option (List (List SyntaxNode) × List Tree)
  | 0, _ => none
  | fuel + 1, trees => do
    let (binding, rest) ← readBinding fuel trees
    match significant rest with
    | comma :: behind =>
      if comma.isSymbol ',' then do
        let (more, rest) ← readBindings fuel behind
        return ((binding ++ [treeToken "," comma]) :: more, rest)
      else return ([binding], rest)
    | [] => return ([binding], rest)

/-! ## Cases -/

/-- The value behind an equals sign, of which nothing may be left. -/
def readDefault (field : String) (trees : List Tree) : Option (List SyntaxNode) :=
  match afterEquals? trees with
  | some (equals, value) => do
    let value ← cover? "expression" value
    return [treeToken "=" equals, filling field value]
  | none => if (significant trees).isEmpty then some [] else none

/-- The type of an associated value, with the comments before it.  The attributes before a
type are a node of their own. -/
def readCaseType (fuel : Nat) (trees : List Tree) : Option (List SyntaxNode) := do
  let rest ← afterType fuel trees
  let default ← readDefault "default_value" rest
  let bare ←
    if ((significant trees).head?.map (isSymbol '@')).getD false then afterTypePrefixes fuel trees
    else some trees
  let type ← cover? "user_type" (readPart bare rest)
  return (trees.takeWhile isTrivia).filterMap comment?
    ++ ((cover? "type_modifiers" (readPart trees bare)).toList ++ type :: default)

/-- The trees before the colon of a label, the colon, and the trees behind it. -/
def splitLabel? (segment : List Tree) : Option (List Tree × Tree × List Tree) :=
  match segment.span fun tree => !tree.isSymbol ':' && !tree.isSymbol '=' with
  | (before, colon :: behind) => if colon.isSymbol ':' then some (before, colon, behind) else none
  | (_, []) => none

def nameNode? (tree : Tree) : Option SyntaxNode :=
  tree.word?.map fun _ => nodeOf "simple_identifier" tree.start tree.stop []

/-- One or two names, with the comments around them. -/
def labelNodes? (trees : List Tree) : Option (List SyntaxNode) :=
  let named := trees.filter (!·.isTrivia)
  if named.all (·.word?.isSome) && !named.isEmpty && named.length ≤ 2 then
    some (trees.filterMap fun tree => (comment? tree).or (nameNode? tree))
  else none

/-- One associated value, or the comments that stand in its place. -/
def readCaseParameter (fuel : Nat) (segment : List Tree) : Option (List SyntaxNode) :=
  if (significant segment).isEmpty then some (segment.filterMap comment?)
  else
    match splitLabel? segment with
    | some (before, colon, behind) => do
      let label ← labelNodes? before
      let type ← readCaseType fuel behind
      return label ++ treeToken ":" colon :: type
    | none => readCaseType fuel segment

/-- The associated values between two parentheses; only the last segment may be
empty. -/
def readCaseParameters (fuel : Nat) (body : List Tree) : Option (List SyntaxNode) :=
  let found := segments fuel true body
  if found.dropLast.any (·.1.isEmpty) then none
  else segmentNodes (readCaseParameter fuel) found

/-- What belongs to the name of a case: associated values, or a value of its own. -/
def readCaseSuffix (fuel : Nat) (trees : List Tree) : Option (List SyntaxNode × List Tree) :=
  match significant trees with
  | .group .round opening body closing :: behind =>
    if opening.gap == .line then some ([], trees)
    else do
      let inside ← readCaseParameters fuel body
      return ([filling "data_contents" (nodeOf "enum_type_parameters" opening.start closing.stop
        (tokenOf "(" opening.start opening.stop
          :: (inside ++ [tokenOf ")" closing.start closing.stop])))], behind)
  | _ =>
    match afterEquals? trees with
    | some (equals, behind) => do
      let (value, rest) ← readExpression fuel "raw_value" behind
      return ([treeToken "=" equals, value], rest)
    | none => some ([], trees)

def readCaseElement (fuel : Nat) (trees : List Tree) : Option (List SyntaxNode × List Tree) :=
  match significant trees with
  | tree :: rest =>
    if (tree.word?.map isName).getD false then do
      let (suffix, rest) ← readCaseSuffix fuel rest
      return (filling "name" (nodeOf "simple_identifier" tree.start tree.stop []) :: suffix, rest)
    else none
  | [] => none

/-- The elements of a case line, with a semicolon that may end it. -/
def readCaseElements : (fuel : Nat) → List Tree → Option (List SyntaxNode × List Tree)
  | 0, _ => none
  | fuel + 1, trees => do
    let (element, rest) ← readCaseElement fuel trees
    match significant rest with
    | tree :: behind =>
      if tree.isSymbol ',' then do
        let (more, rest) ← readCaseElements fuel behind
        return (element ++ treeToken "," tree :: more, rest)
      else if tree.isSymbol ';' then return (element ++ [treeToken ";" tree], behind)
      else return (element, rest)
    | [] => return (element, rest)

/-! ## Initializers -/

/-- Behind the three dots of a variadic parameter. -/
def afterDots? (trees : List Tree) : Option (List Tree) :=
  match significant trees with
  | a :: b :: c :: rest =>
    if a.isSymbol '.' && b.isSymbol '.' && c.isSymbol '.' then some rest else none
  | _ => none

/-- The type of a parameter with the three dots behind it: the node of the type, and a node
that ends with the dots. -/
def readParameterType (fuel : Nat) (trees : List Tree) :
    Option (SyntaxNode × SyntaxNode × List Tree) := do
  let (type, rest) ← readType fuel trees
  match afterDots? rest with
  | some rest => return (type, ← cover? "user_type" (readPart trees rest), rest)
  | none => return (type, type, rest)

def readParameter (fuel : Nat) (segment : List Tree) : Option (List SyntaxNode) := do
  let trees ← afterAttributes fuel segment
  let (before, colon, behind) ← splitLabel? trees
  let names ← (before.filter (!·.isTrivia)).mapM nameNode?
  let (type, whole, rest) ← readParameterType fuel behind
  let default ← readDefault "default_value" rest
  match names with
  | first :: more =>
    if more.length ≤ 1 then
      return nodeOf "parameter" first.startByte whole.endByte
        (names ++ [treeToken ":" colon, type]) :: default
    else none
  | [] => none

/-- The parameters between two parentheses; the last may be followed by a comma. -/
def readParameters (fuel : Nat) (body : List Tree) : Option (List SyntaxNode) :=
  let found := segments fuel true body
  let found :=
    if ((found.getLast?.map fun last => (significant last.1).isEmpty).getD false) then
      found.dropLast
    else found
  segmentNodes (readParameter fuel) found

/-- Behind parameter clauses, of which there is at least one. -/
def afterParameterClauses (trees : List Tree) : Option (List Tree) :=
  match significant trees with
  | .group .round _ _ _ :: rest =>
    some (rest.dropWhile fun tree => (tree.body? .round).isSome)
  | _ => none

def afterBraces? (trees : List Tree) : Option (List Tree) :=
  match significant trees with
  | .group .curly _ _ _ :: rest => some rest
  | _ => none

def afterResult (fuel : Nat) (trees : List Tree) : Option (List Tree) :=
  match afterArrow? trees with
  | some result => afterType fuel result
  | none => some trees

/-- Behind the mark of an initializer that may fail. -/
def afterMark (trees : List Tree) : List Tree :=
  match significant trees with
  | mark :: rest => if mark.isSymbol '?' || mark.isSymbol '!' then rest else trees
  | [] => trees

def readBlock (trees : List Tree) : List SyntaxNode × List Tree :=
  match significant trees with
  | .group .curly opening _ closing :: rest =>
    ([filling "body" (nodeOf "function_body" opening.start closing.stop [])], rest)
  | _ => ([], trees)

/-- The parameter clause and the block of an initializer whose keyword is already read. -/
def readInitializer (fuel : Nat) (trees : List Tree) : Option (List SyntaxNode × List Tree) := do
  let trees ← afterGenerics (afterMark trees)
  match significant trees with
  | .group .round opening body closing :: rest =>
    let inside ← readParameters fuel body
    let (block, rest) := readBlock (← afterWhere fuel (afterEffects fuel rest))
    return (tokenOf "(" opening.start opening.stop
      :: (inside ++ tokenOf ")" closing.start closing.stop :: block), rest)
  | _ => none

/-! ## Members that are passed over -/

def afterFunctionName? (trees : List Tree) : Option (List Tree) :=
  match significant trees with
  | tree :: rest =>
    if (tree.word?.map isName).getD false then some rest
    else (operator? (tree :: rest)).map (·.2)
  | [] => none

/-- Behind a function whose keyword is already read. -/
def afterFunction (fuel : Nat) (needsBody : Bool) (trees : List Tree) : Option (List Tree) := do
  let rest ← afterFunctionName? trees
  let rest ← afterGenerics rest
  let rest ← afterParameterClauses rest
  let rest ← afterResult fuel (afterEffects fuel rest)
  let rest ← afterWhere fuel rest
  match afterBraces? rest with
  | some behind => return behind
  | none => if needsBody then none else return rest

/-- Behind a subscript whose keyword is already read. -/
def afterSubscript (fuel : Nat) (trees : List Tree) : Option (List Tree) := do
  let rest ← afterGenerics trees
  let rest ← afterParameterClauses rest
  let rest ← afterResult fuel rest
  let rest ← afterWhere fuel rest
  afterBraces? rest

/-- Behind a name. -/
def afterName? (trees : List Tree) : Option (List Tree) :=
  match significant trees with
  | tree :: rest => if (tree.word?.map isName).getD false then some rest else none
  | [] => none

/-- Behind an equals sign and what `reader` reads, if an equals sign begins here. -/
def afterAssigned (reader : List Tree → Option (List Tree)) (trees : List Tree) :
    Option (List Tree) :=
  match afterEquals? trees with
  | some (_, value) => reader value
  | none => some trees

/-- Behind a type alias whose keyword is already read. -/
def afterTypeAlias (fuel : Nat) (trees : List Tree) : Option (List Tree) := do
  let rest ← afterGenerics (← afterName? trees)
  let (_, aliased) ← afterEquals? rest
  let rest ← afterType fuel aliased
  afterWhere fuel rest

/-- Behind a colon and what `reader` reads, if a colon begins here. -/
def afterColon (reader : List Tree → Option (List Tree)) (trees : List Tree) :
    Option (List Tree) :=
  match significant trees with
  | colon :: behind => if colon.isSymbol ':' then reader behind else some trees
  | [] => some trees

/-- Behind an associated type whose keyword is already read. -/
def afterAssociatedType (fuel : Nat) (trees : List Tree) : Option (List Tree) := do
  let rest ← afterName? trees
  let rest ← afterColon (afterType fuel) rest
  let rest ← afterAssigned (afterType fuel) rest
  let rest ← afterWhere fuel rest
  afterAssigned (afterType fuel) rest

/-- Behind an import whose keyword is already read. -/
def afterImport (trees : List Tree) : Option (List Tree) :=
  match significant trees with
  | kind :: rest =>
    let path :=
      if ["typealias", "struct", "class", "enum", "protocol", "let", "var", "func"].contains
          (kind.word?.getD "") then rest
      else kind :: rest
    (afterName? path).map afterDotted
  | [] => none

/-- Behind an operator declaration whose keyword is already read. -/
def afterOperatorDeclaration (trees : List Tree) : Option (List Tree) := do
  let (_, rest) ← operator? (significant trees)
  let rest ← afterColon afterName? rest
  return (afterBraces? rest).getD rest

/-- Behind a macro declaration whose keyword is already read. -/
def afterMacro (fuel : Nat) (trees : List Tree) : Option (List Tree) := do
  let rest ← afterGenerics (← afterName? trees)
  let rest ← afterParameterClauses rest
  let rest ← afterResult fuel rest
  let rest ← afterAssigned (afterExpression fuel) rest
  afterWhere fuel rest

end Fakery.Reader
