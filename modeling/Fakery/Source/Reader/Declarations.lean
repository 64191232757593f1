import Fakery.Source.Reader.Members

/-!
# Reading declarations

Members and blocks are read into nodes of a syntax tree, with the directives and the comments
that stand between members.
-/

namespace Fakery.Reader

open Fakery.Tree

/-- Where a declaration stands. -/
inductive Place where
  | file
  | typeBody
  | enumBody
  | protocolBody
  deriving DecidableEq, Repr

/-- Behind one inherited type, without the composition it may be part of. -/
def afterInherited : (fuel : Nat) → List Tree → Option (List Tree)
  | 0, _ => none
  | fuel + 1, trees =>
    match significant trees with
    | tree :: rest =>
      match tree.word? with
      | some word =>
        if word == "any" || word == "some" then
          if ((significant rest).head?.map startsType).getD false then afterInherited fuel rest
          else some rest
        else if isName word then some (afterMembers fuel (afterArguments fuel rest))
        else none
      | none =>
        if tree.isSymbol '~' then afterInherited fuel rest
        else if (tree.body? .round).isSome || (tree.body? .square).isSome then
          afterTypeSuffixes fuel rest
        else none
    | [] => none
where
  /-- Behind the member types of a dotted name. -/
  afterMembers : (fuel : Nat) → List Tree → List Tree
    | 0, trees => trees
    | fuel + 1, trees =>
      match significant trees with
      | dot :: member :: rest =>
        if dot.isSymbol '.' && member.word?.isSome then
          afterMembers fuel (afterArguments fuel rest)
        else trees
      | _ => trees

/-- The inherited types behind the colon of a header. -/
def readInherited : (fuel : Nat) → List Tree → Option (List SyntaxNode × List Tree)
  | 0, _ => none
  | fuel + 1, trees => do
    let trees ← afterAttributes fuel trees
    let rest ← afterInherited fuel trees
    let found ← cover? "inheritance_specifier" (readPart trees rest)
    match significant rest with
    | tree :: behind =>
      if tree.isSymbol ',' || tree.isSymbol '&' then do
        let (more, rest) ← readInherited fuel behind
        return (found :: treeToken (if tree.isSymbol ',' then "," else "&") tree :: more, rest)
      else return ([found], rest)
    | [] => return ([found], rest)

/-- The name of a type declaration.  An extension has a type as its name. -/
def readTypeName (fuel : Nat) (keyword : String) (trees : List Tree) :
    Option (SyntaxNode × List Tree) :=
  if keyword == "extension" then readType fuel trees
  else
    match significant trees with
    | tree :: rest =>
      if (tree.word?.map isName).getD false then
        some (nodeOf "type_identifier" tree.start tree.stop [], rest)
      else none
    | [] => none

/-- The inherited types of a header, if a colon begins here. -/
def readInheritance (fuel : Nat) (trees : List Tree) : Option (List SyntaxNode × List Tree) :=
  match significant trees with
  | colon :: behind =>
    if colon.isSymbol ':' then do
      let (found, rest) ← readInherited fuel behind
      return (treeToken ":" colon :: found, rest)
    else some ([], trees)
  | [] => some ([], trees)

/-- The header of a type declaration whose keyword is already read, up to its body. -/
def readTypeHeader (fuel : Nat) (keyword : String) (trees : List Tree) :
    Option (List SyntaxNode × List Tree) := do
  let (name, rest) ← readTypeName fuel keyword trees
  let rest ← afterGenerics rest
  let (inherited, rest) ← readInheritance fuel rest
  let rest ← afterWhere fuel rest
  return (filling "name" name :: inherited, significant rest)

def typeKeywords : List String :=
  ["struct", "class", "actor", "enum", "extension", "protocol"]

def placeOf (keyword : String) : Place :=
  if keyword == "enum" then .enumBody
  else if keyword == "protocol" then .protocolBody
  else .typeBody

def typeKinds (keyword : String) : String × String :=
  if keyword == "enum" then ("class_declaration", "enum_class_body")
  else if keyword == "protocol" then ("protocol_declaration", "protocol_body")
  else ("class_declaration", "class_body")

/-- Behind a member that is passed over, whose keyword is already read. -/
def afterOther (fuel : Nat) (place : Place) (keyword : String) (trees : List Tree) :
    Option (List Tree) :=
  match keyword with
  | "func" => afterFunction fuel (place != .protocolBody) trees
  | "subscript" => if place == .file then none else afterSubscript fuel trees
  | "deinit" => if place == .file then none else afterBraces? trees
  | "typealias" => afterTypeAlias fuel trees
  | "associatedtype" => afterAssociatedType fuel trees
  | "import" => afterImport trees
  | "operator" => afterOperatorDeclaration trees
  | "precedencegroup" => (afterName? trees).bind afterBraces?
  | "macro" => afterMacro fuel trees
  | _ => none

/-- The kind of the node of a member that is passed over. -/
def otherKind (place : Place) (keyword : String) : String :=
  if keyword == "func" && place == .protocolBody then "protocol_function_declaration"
  else
    ([("func", "function_declaration"), ("subscript", "subscript_declaration"),
      ("deinit", "deinit_declaration"), ("typealias", "typealias_declaration"),
      ("associatedtype", "associatedtype_declaration"), ("import", "import_declaration"),
      ("operator", "operator_declaration"), ("precedencegroup", "precedence_group_declaration"),
      ("macro", "macro_declaration")].lookup keyword).getD keyword

/-- A binding of a protocol's property has accessors and no value. -/
def isRequirement (binding : List SyntaxNode) : Bool :=
  binding.any (fun node => node.kind == "computed_property" || node.kind == "willset_didset_block")
    && !binding.any (·.field == some "value")

/-- A member other than a type, whose keyword is already read: its kind, and its nodes from
the keyword on. -/
def readSimple (fuel : Nat) (place : Place) (keywordTree : Tree) (keyword : String)
    (rest : List Tree) : Option (String × List SyntaxNode × List Tree) := do
  if keyword == "let" || keyword == "var" then
    let (bindings, rest) ← readBindings fuel rest
    let nodes :=
      nodeOf "value_binding_pattern" keywordTree.start keywordTree.stop [] :: bindings.flatten
    if place == .protocolBody then
      if bindings.all isRequirement then return ("protocol_property_declaration", nodes, rest)
      else none
    else return ("property_declaration", nodes, rest)
  else if keyword == "case" then
    if place == .enumBody then
      let (elements, rest) ← readCaseElements fuel rest
      return ("enum_entry", treeToken "case" keywordTree :: elements, rest)
    else none
  else if keyword == "init" then
    if place == .file then none
    else
      let (clause, rest) ← readInitializer fuel rest
      return ("init_declaration", filling "name" (treeToken "init" keywordTree) :: clause, rest)
  else
    let rest ← afterOther fuel place keyword rest
    return (otherKind place keyword, [treeToken keyword keywordTree], rest)

/-- Statements that may stand at file level and begin with a keyword. -/
def afterStatement (fuel : Nat) (trees : List Tree) : Option (List Tree) :=
  match significant trees with
  | [] => none
  | tree :: rest =>
    let word := tree.word?.getD ""
    if ["guard", "for", "while", "do", "defer"].contains word then
      (afterBlock? rest).bind (afterCatch fuel)
    else if word == "repeat" then
      match (afterBlock? rest).map significant with
      | some (while' :: condition) =>
        if while'.isWord "while" then afterExpression fuel condition else none
      | _ => none
    else if word == "return" || word == "break" || word == "continue" then
      if ((rest.head?.map fun next => next.gap != .line && !next.isSymbol ';').getD false) then
        afterExpression fuel rest
      else some rest
    else if word == "throw" then afterExpression fuel rest
    else
      (afterExpression fuel trees).bind (afterAssigned (afterExpression fuel))
where
  /-- Behind the `catch` clauses of a `do` statement. -/
  afterCatch : (fuel : Nat) → List Tree → Option (List Tree)
    | 0, _ => none
    | fuel + 1, trees =>
      match significant trees with
      | tree :: rest =>
        if tree.isWord "catch" then (afterBlock? rest).bind (afterCatch fuel) else some trees
      | [] => some trees

/-- Whether a member may end before the rest of its block.  The cases of an enum need
no separator. -/
def separated (place : Place) (rest : List Tree) : Bool :=
  match significant rest with
  | [] => true
  | tree :: _ =>
    place == .enumBody || tree.isSymbol ';' || tree.gap == .line
      || (tree.gap == .comment && place != .file)

mutual

/-- The nodes of a block: directives, comments and members. -/
def readItems : (fuel : Nat) → Place → List Tree → Option (List SyntaxNode)
  | 0, _, _ => none
  | _, _, [] => some []
  | fuel + 1, place, tree :: rest =>
    match tree with
    | .leaf ⟨.directive, text, start, _⟩ =>
      (readItems fuel place rest).map (nodeOf "directive" start (start + text.length) [] :: ·)
    | _ =>
      if tree.isTrivia || tree.isSymbol ';' then
        (readItems fuel place rest).map ((comment? tree).toList ++ ·)
      else
        match readMember fuel place (tree :: rest) with
        | some (node, rest) =>
          if separated place rest then (readItems fuel place rest).map (node :: ·) else none
        | none =>
          if place == .file then
            match afterStatement fuel (tree :: rest) with
            | some rest => if separated place rest then readItems fuel place rest else none
            | none => none
          else none

def readMember : (fuel : Nat) → Place → List Tree → Option (SyntaxNode × List Tree)
  | 0, _, _ => none
  | fuel + 1, place, trees =>
    match readPrelude fuel trees with
    | none => none
    | some (prelude, rest) =>
      match significant trees, significant rest with
      | first :: _, keywordTree :: rest =>
        match keywordTree.word? with
        | none => none
        | some keyword =>
          if !memberKeywords.contains keyword then none
          else if typeKeywords.contains keyword then
            if place == .protocolBody then none
            else
              match readTypeHeader fuel keyword rest with
              | some (head, .group .curly opening body closing :: rest) =>
                match readItems fuel (placeOf keyword) body with
                | none => none
                | some inside =>
                  let block := nodeOf (typeKinds keyword).2 opening.start closing.stop
                    (tokenOf "\x7b" opening.start opening.stop
                      :: (inside ++ [tokenOf "\x7d" closing.start closing.stop]))
                  some (nodeOf (typeKinds keyword).1 first.start closing.stop
                    (modifiersNode prelude
                      ++ filling "declaration_kind" (treeToken keyword keywordTree)
                        :: (head ++ [filling "body" block])), rest)
              | _ => none
          else
            match readSimple fuel place keywordTree keyword rest with
            | none => none
            | some (kind, nodes, rest) =>
              some (nodeOf kind first.start (stopOf trees rest)
                (modifiersNode prelude ++ nodes), rest)
      | _, _ => none

end

end Fakery.Reader
