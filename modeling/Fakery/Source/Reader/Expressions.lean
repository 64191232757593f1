import Fakery.Source.Reader.Types

/-!
# Reading expressions

Only the extent of an expression matters to a declaration.  An expression goes on
over a line end if the next line begins with a member access, a spaced binary
operator, a cast or the branches of a conditional.
-/

namespace Fakery.Reader

open Fakery.Tree

def isOperatorChar (c : Char) : Bool :=
  "/=-+!*%<>&|^~?.".toList.contains c

def operatorChar? (tree : Tree) : Option Char :=
  tree.symbol?.filter isOperatorChar

/-- The rest of an operator whose first character is already read: characters that
follow without separation. -/
def afterOperator : List Tree → List Char × List Tree
  | [] => ([], [])
  | tree :: rest =>
    match operatorChar? tree with
    | some c =>
      if tree.gap == .tight then
        let (text, rest) := afterOperator rest
        (c :: text, rest)
      else ([], tree :: rest)
    | none => ([], tree :: rest)

/-- An operator at the head of a list of trees, with what is left. -/
def operator? : List Tree → Option (List Char × List Tree)
  | [] => none
  | tree :: rest =>
    (operatorChar? tree).map fun c =>
      let (text, rest) := afterOperator rest
      (c :: text, rest)

/-- Whether the first tree follows the one before without separation. -/
def isTight (trees : List Tree) : Bool :=
  (trees.head?.map (·.gap == .tight)).getD false

/-- Words that may stand before an operand. -/
def operandWords : List String := ["try", "await", "consume", "copy", "borrow"]

/-- Reserved words that are operands. -/
def valueWords : List String := ["self", "super", "nil", "true", "false", "init"]

/-- Whether a generic argument clause may end before a list of trees in an expression. -/
def endsArguments (trees : List Tree) : Bool :=
  match trees with
  | [] => true
  | tree :: _ =>
    match tree with
    | .group .round _ _ _ => true
    | .group .square _ _ _ => false
    | .group .curly _ _ _ => true
    | .leaf _ =>
      match tree.symbol? with
      | some c => [',', '.', ':', ';', '!', '?'].contains c
      | none => tree.gap == .line

/-- Behind a generic argument clause that directly follows a name, if one does. -/
def afterCallArguments (fuel : Nat) (trees : List Tree) : List Tree :=
  match trees with
  | tree :: _ =>
    if tree.isSymbol '<' && tree.gap == .tight then
      let rest := afterArguments fuel trees
      if endsArguments rest then rest else trees
    else trees
  | [] => trees

/-- A block of observers: its first accessor is `willSet` or `didSet`. -/
def isObserverBlock (tree : Tree) : Bool :=
  match tree.body? .curly with
  | some body =>
    match significant body with
    | first :: _ => first.isWord "willSet" || first.isWord "didSet"
    | [] => false
  | none => false

def afterBlock? : List Tree → Option (List Tree)
  | [] => none
  | tree :: rest => if (tree.body? .curly).isSome then some rest else afterBlock? rest

def afterElse : (fuel : Nat) → List Tree → Option (List Tree)
  | 0, _ => none
  | fuel + 1, trees =>
    match significant trees with
    | tree :: rest =>
      if tree.isWord "else" then (afterBlock? rest).bind (afterElse fuel) else some trees
    | [] => some trees

/-- A mark that unwraps the operand before it: one `?` or `!` at a time, unless the
characters make up a binary operator. -/
def isPostfixMark (tree : Tree) (operator : List Char) : Bool :=
  (tree.isSymbol '?' || tree.isSymbol '!') && tree.gap == .tight
    && operator != ['?', '?'] && operator != ['!', '='] && operator != ['!', '=', '=']

/-- A range without upper bound. -/
def isPostfixRange (tree : Tree) (operator : List Char) (behind : List Tree) : Bool :=
  operator == ['.', '.', '.'] && tree.gap == .tight && !isTight behind

mutual

/-- Behind an expression whose next part is an operand. -/
def afterExpression : (fuel : Nat) → List Tree → Option (List Tree)
  | 0, _ => none
  | fuel + 1, trees =>
    match significant trees with
    | [] => none
    | tree :: rest =>
      match tree with
      | .group .. => afterOperand fuel rest
      | .leaf ⟨.number, _, _, _⟩ => afterOperand fuel rest
      | .leaf ⟨.string, _, _, _⟩ => afterOperand fuel rest
      | .leaf _ =>
        match tree.word? with
        | some word =>
          if operandWords.contains word && ((significant rest).head?.isSome)
              && !(((rest.head?.bind operatorChar?).map (· == '.')).getD false) then
            match rest with
            | mark :: rest' =>
              if word == "try" && mark.gap == .tight
                  && (mark.isSymbol '?' || mark.isSymbol '!') then
                afterExpression fuel rest'
              else if word == "try" || (mark.gap == .blank && mark.word?.isSome) then
                afterExpression fuel rest
              else afterOperand fuel (afterCallArguments fuel rest)
            | [] => none
          else if word == "if" then (afterBlock? rest).bind (afterElse fuel)
          else if word == "switch" then afterBlock? rest
          else if !reservedWords.contains word || valueWords.contains word then
            afterOperand fuel (afterCallArguments fuel rest)
          else none
        | none =>
          if tree.isSymbol '\\' then afterExpression fuel rest
          else
            match operator? (tree :: rest) with
            | some (text, rest) =>
              if isTight rest || text == ['-'] || text == ['+'] || text == ['!']
                  || text == ['~'] || text == ['&'] then
                match text, rest with
                | ['.'], member :: rest' =>
                  if member.word?.isSome then
                    afterOperand fuel (afterCallArguments fuel rest')
                  else none
                | _, _ => afterExpression fuel rest
              else none
            | none => none

/-- Behind an expression of which an operand has been read: calls, members,
operators and casts that continue it. -/
def afterOperand : (fuel : Nat) → List Tree → Option (List Tree)
  | 0, _ => none
  | fuel + 1, trees =>
    match significant trees with
    | [] => some trees
    | tree :: rest =>
      let fresh := tree.gap == .line
      match tree with
      | .group .curly _ _ _ =>
        if isObserverBlock tree then some trees else afterOperand fuel rest
      | .group .. => if fresh then some trees else afterOperand fuel rest
      | .leaf _ =>
        match tree.word? with
        | some word =>
          if word == "as" || word == "is" then
            match rest with
            | mark :: rest' =>
              let type :=
                if mark.gap == .tight && (mark.isSymbol '?' || mark.isSymbol '!') then rest'
                else rest
              (afterType fuel type).bind (afterOperand fuel)
            | [] => none
          else
            -- a further labelled trailing closure
            match rest with
            | colon :: rest' =>
              match significant rest' with
              | block :: rest'' =>
                if !fresh && colon.isSymbol ':' && (block.body? .curly).isSome then
                  afterOperand fuel rest''
                else some trees
              | [] => some trees
            | [] => some trees
        | none =>
          match operator? (tree :: rest) with
          | none => some trees
          | some (text, behind) =>
            if text == ['.'] then
              match behind with
              | member :: behind' =>
                match member with
                | .leaf ⟨.number, _, _, _⟩ => afterOperand fuel behind'
                | _ =>
                  if member.word?.isSome then
                    afterOperand fuel (afterCallArguments fuel behind')
                  else none
              | [] => none
            else if text == ['='] then some trees
            else if isPostfixMark tree text then afterOperand fuel rest
            else if text == ['?'] then
              match afterExpression fuel behind with
              | none => none
              | some chosen =>
                match significant chosen with
                | colon :: other => if colon.isSymbol ':' then afterExpression fuel other else none
                | [] => none
            else if isPostfixRange tree text behind then afterOperand fuel behind
            else if fresh && isTight behind then some trees
            else afterExpression fuel behind

end

/-- Behind the name that a list of trees begins with and the generic clause that
belongs to it; behind any other tree. -/
def afterItem (fuel : Nat) (inType : Bool) (tree : Tree) (rest : List Tree) : List Tree :=
  if tree.word?.isSome then
    if inType then afterArguments fuel rest else afterCallArguments fuel rest
  else rest

/-- Cuts the contents of a parenthesis at its commas, and keeps the comma behind every
segment but the last.  Commas between the angle brackets of a generic clause do not cut. -/
def segments : (fuel : Nat) → (inType : Bool) → List Tree → List (List Tree × Option Tree)
  | 0, _, _ => [([], none)]
  | _, _, [] => [([], none)]
  | fuel + 1, inType, tree :: rest =>
    if tree.isSymbol ',' then ([], some tree) :: segments fuel inType rest
    else
      let behind := afterItem fuel inType tree rest
      let item := tree :: readPart rest behind
      match segments fuel inType behind with
      | [] => [(item, none)]
      | (first, comma) :: more => (item ++ first, comma) :: more

end Fakery.Reader
