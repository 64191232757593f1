import Fakery.Source.Tree

/-!
# Reading types

The readers take a list of trees and give back what is left behind a type.  They
are given more fuel than there are tokens, so they never run out.
-/

namespace Fakery.Reader

open Fakery.Tree

/-- Words that cannot be the name of anything. -/
def reservedWords : List String := [
  "associatedtype", "class", "deinit", "enum", "extension", "fileprivate", "func", "import",
  "init", "inout", "internal", "let", "operator", "private", "precedencegroup", "protocol",
  "public", "rethrows", "static", "struct", "subscript", "typealias", "var", "break", "case",
  "catch", "continue", "default", "defer", "do", "else", "fallthrough", "for", "guard", "if",
  "in", "return", "switch", "throw", "throws", "try", "where", "while", "as", "is", "nil",
  "true", "false", "self", "super"]

def isName (word : String) : Bool :=
  !reservedWords.contains word && word != "_" && word.toList.head? != some '#'

/-- Words that may stand before the type of a parameter. -/
def ownershipWords : List String :=
  ["inout", "borrowing", "consuming", "sending", "isolated", "__owned", "__shared"]

def startsType (tree : Tree) : Bool :=
  match tree with
  | .leaf _ =>
    match tree.word?, tree.symbol? with
    | some word, _ => isName word && word != "async"
    | none, some c => c == '@' || c == '~'
    | none, none => false
  | .group bracket _ _ _ => bracket != .curly

/-- Behind the name of an attribute: the dotted name that may follow its first word. -/
def afterDotted : List Tree → List Tree
  | [] => []
  | [tree] => [tree]
  | dot :: tree :: rest =>
    if dot.isSymbol '.' && dot.gap == .tight && tree.gap == .tight
        && (tree.word?.map isName).getD false then
      afterDotted rest
    else dot :: tree :: rest

/-- Behind the attributes and ownership words before a type.  A parenthesis directly
behind an attribute is its argument clause only if a type follows. -/
def afterTypePrefixes : (fuel : Nat) → List Tree → Option (List Tree)
  | 0, _ => none
  | fuel + 1, trees =>
    match significant trees with
    | [] => none
    | tree :: rest =>
      if tree.isSymbol '@' then
        match significant rest with
        | name :: rest =>
          if (name.word?.map isName).getD false then
            let rest := afterDotted rest
            match rest with
            | .group .round opening body closing :: rest' =>
              let follows := ((significant rest').head?.map startsType).getD false
              if opening.gap == .tight && follows then afterTypePrefixes fuel rest'
              else afterTypePrefixes fuel (.group .round opening body closing :: rest')
            | _ => afterTypePrefixes fuel rest
          else none
        | [] => none
      else if (tree.word?.map ownershipWords.contains).getD false
          && (((significant rest).head?.map startsType).getD false) then
        afterTypePrefixes fuel rest
      else some (tree :: rest)

/-- Behind the words `async`, `throws` and their like. -/
def afterEffects : (fuel : Nat) → List Tree → List Tree
  | 0, trees => trees
  | fuel + 1, trees =>
    match significant trees with
    | tree :: rest =>
      match tree.word? with
      | some word =>
        if word == "throws" then
          match rest with
          | .group .round _ _ _ :: rest' => afterEffects fuel rest'
          | _ => afterEffects fuel rest
        else if word == "async" || word == "rethrows" || word == "reasync" then
          afterEffects fuel rest
        else trees
      | none => trees
    | [] => trees

def afterArrow? (trees : List Tree) : Option (List Tree) :=
  match significant trees with
  | dash :: tip :: rest =>
    if dash.isSymbol '-' && tip.isSymbol '>' && tip.gap == .tight then some rest else none
  | _ => none

mutual

/-- Behind a type with its attributes, suffixes, and what it is combined with. -/
def afterType : (fuel : Nat) → List Tree → Option (List Tree)
  | 0, _ => none
  | fuel + 1, trees =>
    match afterTypePrefixes fuel trees with
    | none => none
    | some trees =>
      match trees with
      | [] => none
      | tree :: rest =>
        match tree with
        | .leaf _ =>
          match tree.word? with
          | some word =>
            if (word == "any" || word == "some" || word == "each" || word == "repeat")
                && (((significant rest).head?.map startsType).getD false) then
              afterType fuel rest
            else if isName word then afterTypeSuffixes fuel (afterArguments fuel rest)
            else none
          | none => if tree.isSymbol '~' then afterType fuel rest else none
        | .group .round _ _ _ => afterTypeSuffixes fuel rest
        | .group .square _ body _ =>
          match afterType fuel body with
          | none => none
          | some inside =>
            match significant inside with
            | [] => afterTypeSuffixes fuel rest
            | colon :: value =>
              if colon.isSymbol ':' then
                match afterType fuel value with
                | some inside =>
                  if (significant inside).isEmpty then afterTypeSuffixes fuel rest else none
                | none => none
              else none
        | .group .curly _ _ _ => none

/-- Behind the suffixes of a type: marks of optionality, member types, further
members of a composition, and the result of a function type. -/
def afterTypeSuffixes : (fuel : Nat) → List Tree → Option (List Tree)
  | 0, _ => none
  | fuel + 1, trees =>
    match trees with
    | [] => some []
    | next :: behind =>
      if (next.isSymbol '?' || next.isSymbol '!') && next.gap == .tight then
        afterTypeSuffixes fuel behind
      else
        match significant trees with
        | tree :: member :: rest =>
          if tree.isSymbol '.' && member.word?.isSome then
            afterTypeSuffixes fuel (afterArguments fuel rest)
          else if tree.isSymbol '&' then afterType fuel (member :: rest)
          else
            match afterArrow? (afterEffects fuel trees) with
            | some result => afterType fuel result
            | none => some trees
        | _ => some trees

/-- Behind a generic argument clause, if one begins here. -/
def afterArguments : (fuel : Nat) → List Tree → List Tree
  | 0, trees => trees
  | fuel + 1, trees =>
    match significant trees with
    | tree :: rest =>
      if tree.isSymbol '<' then (afterTypeList fuel rest).getD trees else trees
    | [] => trees

/-- Behind a list of types and the angle bracket that closes it. -/
def afterTypeList : (fuel : Nat) → List Tree → Option (List Tree)
  | 0, _ => none
  | fuel + 1, trees =>
    let behind :=
      match significant trees with
      | .leaf ⟨.number, _, _, _⟩ :: rest => some rest
      | trees => afterType fuel trees
    match behind with
    | none => none
    | some rest =>
      match significant rest with
      | tree :: rest =>
        if tree.isSymbol '>' then some rest
        else if tree.isSymbol ',' then afterTypeList fuel rest
        else none
      | [] => none

end

/-- Behind a generic parameter clause: up to the angle bracket that closes it. -/
def afterAngles : (depth : Nat) → (previous : Option Tree) → List Tree → Option (List Tree)
  | _, _, [] => none
  | depth, previous, tree :: rest =>
    if tree.isSymbol '<' then afterAngles (depth + 1) (some tree) rest
    else if tree.isSymbol '>' then
      let isTip := tree.gap == .tight && ((previous.map (isSymbol '-')).getD false)
      if isTip then afterAngles depth (some tree) rest
      else if depth ≤ 1 then some rest
      else afterAngles (depth - 1) (some tree) rest
    else if (tree.body? .curly).isSome then none
    else afterAngles depth (some tree) rest

/-- Behind a generic parameter clause, if one begins here. -/
def afterGenerics (trees : List Tree) : Option (List Tree) :=
  match significant trees with
  | tree :: rest => if tree.isSymbol '<' then afterAngles 1 none rest else some trees
  | [] => some trees

/-- Behind the constraints of a `where` clause. -/
def afterConstraints : (fuel : Nat) → List Tree → Option (List Tree)
  | 0, _ => none
  | fuel + 1, trees =>
    match afterType fuel trees with
    | none => none
    | some rest =>
      let related :=
        match significant rest with
        | a :: b :: rest =>
          if a.isSymbol ':' then some (b :: rest)
          else if a.isSymbol '=' && b.isSymbol '=' then some rest
          else none
        | _ => none
      match related with
      | none => none
      | some rest =>
        match afterType fuel rest with
        | none => none
        | some rest =>
          match significant rest with
          | comma :: more => if comma.isSymbol ',' then afterConstraints fuel more else some rest
          | [] => some rest

/-- Behind a `where` clause, if one begins here. -/
def afterWhere (fuel : Nat) (trees : List Tree) : Option (List Tree) :=
  match significant trees with
  | tree :: rest => if tree.isWord "where" then afterConstraints fuel rest else some trees
  | [] => some trees

end Fakery.Reader
