import Fakery.Proofs.Source.Stands
import Fakery.Source.Reader.Declarations

/-!
# Outlines of declarations

A small language of type declarations: attributes, properties, case lines,
initializers, functions and nested types, one member to a line, with an indentation
of its own for every line.  An outline has a text, and it stands for a declaration
without places.
-/

namespace Fakery

namespace Outline

/-! ## The language -/

/-- Words that mean something to a reader and name nothing. -/
def keywords : List String :=
  Reader.reservedWords ++ Reader.modifierWords ++ Reader.memberKeywords ++ Reader.ownershipWords
    ++ ["any", "some", "each", "repeat", "async", "reasync", "_"]

def isNameStart (c : Char) : Bool :=
  c.isAlpha || c == '_'

def isNamePart (c : Char) : Bool :=
  c.isAlphanum || c == '_'

theorem isNamePart_of_isNameStart {c : Char} (h : isNameStart c = true) : isNamePart c = true := by
  rw [isNameStart, Bool.or_eq_true] at h
  rcases h with h | h <;> simp [isNamePart, Char.isAlphanum, h]

def isSpelled : List Char → Bool
  | [] => false
  | c :: cs => isNameStart c && cs.all isNamePart

/-- A name of ASCII letters, digits and underscores that is no keyword. -/
structure Name where
  text : List Char
  spelled : isSpelled text = true
  not_keyword : keywords.contains (String.ofList text) = false

def Name.ofWord (word : String) (h : (isSpelled word.toList && !keywords.contains word) = true) :
    Name where
  text := word.toList
  spelled := (Bool.and_eq_true_iff.1 h).1
  not_keyword := by
    rw [String.ofList_toList]
    exact Bool.not_eq_true' _ ▸ (Bool.and_eq_true_iff.1 h).2

theorem Name.text_eq (name : Name) : ∃ c cs, name.text = c :: cs ∧
    isNameStart c = true ∧ ∀ d ∈ cs, isNamePart d = true := by
  have hspelled := name.spelled
  cases htext : name.text with
  | nil => simp [htext, isSpelled] at hspelled
  | cons c cs =>
      rw [htext, isSpelled, Bool.and_eq_true, List.all_eq_true] at hspelled
      exact ⟨c, cs, rfl, hspelled⟩

theorem Name.isNamePart (name : Name) : ∀ c ∈ name.text, isNamePart c = true := by
  obtain ⟨c, cs, htext, hstart, hparts⟩ := name.text_eq
  rw [htext, List.forall_mem_cons]
  exact ⟨isNamePart_of_isNameStart hstart, hparts⟩

/-- The spaces and tabs that a line begins with. -/
structure Indent where
  text : List Char
  blank : ∀ c ∈ text, Text.isSpaceOrTab c = true

/-- The empty lines above a line, and its indentation. -/
structure Margin where
  above : Nat
  indent : Indent

def Margin.text (margin : Margin) : List Char :=
  List.replicate margin.above '\n' ++ margin.indent.text

/-- What stands behind an attribute: a space, or the end of its line. -/
inductive Break where
  | space
  | line (indent : Indent)

def Break.text : Break → List Char
  | .space => [' ']
  | .line indent => '\n' :: indent.text

structure Digits where
  digits : List Char
  ne_nil : digits ≠ []
  isDigit : ∀ c ∈ digits, c.isDigit = true

/-- A decimal integer. -/
structure Literal extends Digits where
  negative : Bool

def Literal.text (literal : Literal) : List Char :=
  if literal.negative then '-' :: literal.digits else literal.digits

inductive Ty where
  | named (name : Name)
  | optional (wrapped : Ty)
  | array (element : Ty)
  | dictionary (key value : Ty)
  | generic (name : Name) (first : Ty) (rest : List Ty)

mutual

def Ty.text : Ty → List Char
  | .named name => name.text
  | .optional wrapped => wrapped.text ++ ['?']
  | .array element => '[' :: (element.text ++ [']'])
  | .dictionary key value => '[' :: (key.text ++ ':' :: ' ' :: (value.text ++ [']']))
  | .generic name first rest => name.text ++ '<' :: (first.text ++ (Ty.restText rest ++ ['>']))

/-- The further arguments of a generic type. -/
def Ty.restText : List Ty → List Char
  | [] => []
  | type :: rest => ',' :: ' ' :: (type.text ++ Ty.restText rest)

end

/-- An attribute with at most one argument. -/
structure Mark where
  name : Name
  argument : Option Literal
  behind : Break

namespace Mark

def bareText (mark : Mark) : List Char :=
  '@' :: (mark.name.text ++
    match mark.argument with
    | none => []
    | some literal => '(' :: (literal.text ++ [')']))

/-- The attribute and what separates it from what follows. -/
def text (mark : Mark) : List Char :=
  mark.bareText ++ mark.behind.text

def placed (start : Nat) (mark : Mark) : Attribute :=
  ⟨String.ofList mark.name.text, mark.argument.map fun literal => [String.ofList literal.text],
    start, start + mark.bareText.length⟩

end Mark

def attributesAt : (start : Nat) → List Mark → List Attribute
  | _, [] => []
  | start, mark :: rest => mark.placed start :: attributesAt (start + mark.text.length) rest

/-- What stands before the keyword of a member. -/
structure Front where
  margin : Margin
  marks : List Mark

def Front.text (front : Front) : List Char :=
  front.margin.text ++ front.marks.flatMap Mark.text

inductive TypeKeyword where
  | structType
  | classType
  | actorType
  | enumType
  deriving DecidableEq

def TypeKeyword.text : TypeKeyword → List Char
  | .structType => "struct".toList
  | .classType => "class".toList
  | .actorType => "actor".toList
  | .enumType => "enum".toList

/-- The names of a parameter: `name`, `label name` or `_ name`. -/
inductive ParamNames where
  | plain (name : Name)
  | labelled (label name : Name)
  | unlabelled (name : Name)

def ParamNames.text : ParamNames → List Char
  | .plain name => name.text
  | .labelled label name => label.text ++ ' ' :: name.text
  | .unlabelled name => '_' :: ' ' :: name.text

def ParamNames.first : ParamNames → String
  | .plain name => String.ofList name.text
  | .labelled label _ => String.ofList label.text
  | .unlabelled _ => "_"

def ParamNames.second? : ParamNames → Option String
  | .plain _ => none
  | .labelled _ name => some (String.ofList name.text)
  | .unlabelled name => some (String.ofList name.text)

structure Param where
  names : ParamNames
  type : Ty

namespace Param

def text (param : Param) : List Char :=
  param.names.text ++ ':' :: ' ' :: param.type.text

def parameter (param : Param) : Parameter :=
  ⟨param.names.first, param.names.second?, String.ofList param.type.text, none, false⟩

end Param

/-- An associated value of a case. -/
structure Value where
  label : Option Name
  type : Ty

namespace Value

def text (value : Value) : List Char :=
  match value.label with
  | none => value.type.text
  | some label => label.text ++ ':' :: ' ' :: value.type.text

def parameter (value : Value) : CaseParameter :=
  ⟨value.label.map fun label => String.ofList label.text, String.ofList value.type.text⟩

end Value

def commaText : List (List Char) → List Char
  | [] => []
  | first :: rest => first ++ rest.flatMap fun item => ',' :: ' ' :: item

/-- One name of a case line, with or without associated values. -/
structure Element where
  name : Name
  values : Option (List Value)

namespace Element

def text (element : Element) : List Char :=
  element.name.text ++
    match element.values with
    | none => []
    | some values => '(' :: (commaText (values.map Value.text) ++ [')'])

def caseElement (element : Element) : CaseElement :=
  ⟨String.ofList element.name.text, element.values.map fun values => values.map Value.parameter,
    none⟩

end Element

/-! ## Functions -/

/-- White space between tokens. -/
structure Blank where
  text : List Char
  white : ∀ c ∈ text, (Text.isSpaceOrTab c || c == '\n') = true

inductive Constant where
  | nothing
  | no
  | yes

def Constant.text : Constant → List Char
  | .nothing => "nil".toList
  | .no => "false".toList
  | .yes => "true".toList

/-- Characters that stand for themselves in a string. -/
def isQuotable (c : Char) : Bool :=
  32 ≤ c.toNat && c.toNat < 127 && c != '"' && c != '\\'

mutual

inductive Expr where
  | constant (constant : Constant)
  | integer (literal : Literal)
  | fraction (whole part : Digits)
  | quoted (text : List Char) (quotable : ∀ c ∈ text, isQuotable c = true)
  | name (name : Name)
  | member (name : Name)
  | emptyArray
  | emptyDictionary
  | call (callee : Expr) (lead : Blank) (arguments : Arguments) (tail : Blank)
  | forced (wrapped : Expr)

inductive Arguments where
  | nil
  | cons (label : Option Name) (value : Expr) (rest : Arguments)

end

def labelText : Option Name → List Char
  | none => []
  | some label => label.text ++ [':', ' ']

mutual

def Expr.text : Expr → List Char
  | .constant constant => constant.text
  | .integer literal => literal.text
  | .fraction whole part => whole.digits ++ '.' :: part.digits
  | .quoted text _ => '"' :: (text ++ ['"'])
  | .name name => name.text
  | .member name => '.' :: name.text
  | .emptyArray => ['[', ']']
  | .emptyDictionary => ['[', ':', ']']
  | .call callee lead arguments tail =>
    callee.text ++ '(' :: (lead.text ++ (commaText arguments.texts ++ (tail.text ++ [')'])))
  | .forced wrapped => wrapped.text ++ ['!']

def Arguments.texts : Arguments → List (List Char)
  | .nil => []
  | .cons label value rest => (labelText label ++ value.text) :: rest.texts

end

structure DefaultParam where
  name : Name
  type : Ty
  value : Expr

def DefaultParam.text (param : DefaultParam) : List Char :=
  param.name.text ++ ':' :: ' ' :: (param.type.text ++ ' ' :: '=' :: ' ' :: param.value.text)

/-- An expression in a block, with or without the word that returns it. -/
structure Statement where
  returned : Bool
  value : Expr

def Statement.text (statement : Statement) : List Char :=
  (if statement.returned then "return ".toList else []) ++ statement.value.text

/-- A static function with one statement in its block. -/
structure Function where
  name : Name
  lead : Blank
  params : List DefaultParam
  tail : Blank
  result : Ty
  blockLead : Blank
  statement : Statement
  blockTail : Blank

def Function.text (function : Function) : List Char :=
  "static func ".toList ++ (function.name.text ++ '(' :: (function.lead.text ++
    (commaText (function.params.map DefaultParam.text) ++ (function.tail.text ++
      (") -> ".toList ++ (function.result.text ++ ' ' :: '\x7b' :: (function.blockLead.text ++
        (function.statement.text ++ (function.blockTail.text ++ ['\x7d'])))))))))

/-! ## Nodes -/

/-- A member, or a type at the top of a file.  A type has its members between its
braces, one to a line. -/
inductive Node where
  | property (front : Front) (isStatic isVariable : Bool) (name : Name) (type : Ty)
  | cases (front : Front) (first : Element) (rest : List Element)
  | initializer (front : Front) (params : List Param) (inside : Option Break)
  | function (margin : Margin) (function : Function)
  | type (front : Front) (keyword : TypeKeyword) (name : Name) (inherited : List Name)
    (body : List Node) (last : Indent)

def specifierOf (isVariable : Bool) : String :=
  if isVariable then "var" else "let"

def inheritanceText : List Name → List Char
  | [] => []
  | first :: rest => ':' :: ' ' :: commaText ((first :: rest).map Name.text)

/-- What stands between the name of a type and its body. -/
def headText (keyword : TypeKeyword) (name : Name) (inherited : List Name) : List Char :=
  keyword.text ++ ' ' :: (name.text ++ inheritanceText inherited)

def Node.margin : Node → Margin
  | .property front _ _ _ _ => front.margin
  | .cases front _ _ => front.margin
  | .initializer front _ _ => front.margin
  | .function margin _ => margin
  | .type front _ _ _ _ _ => front.margin

mutual

/-- The lines of a node from its first token to its last one. -/
def Node.bare : Node → List Char
  | .property front isStatic isVariable name type =>
    front.marks.flatMap Mark.text ++ ((if isStatic then "static ".toList else []) ++
      ((specifierOf isVariable).toList ++ ' ' :: (name.text ++ ':' :: ' ' :: type.text)))
  | .cases front first rest =>
    front.marks.flatMap Mark.text ++
      ("case".toList ++ ' ' :: commaText ((first :: rest).map Element.text))
  | .initializer front params inside =>
    front.marks.flatMap Mark.text ++ ("init".toList ++ '(' :: (commaText (params.map Param.text) ++
      (") \x7b".toList ++ ((inside.map Break.text).getD [] ++ ['\x7d']))))
  | .function _ function => function.text
  | .type front keyword name inherited body last =>
    front.marks.flatMap Mark.text ++ (headText keyword name inherited ++ ' ' :: '\x7b' :: '\n' ::
      (linesOf body ++ (last.text ++ ['\x7d'])))

def linesOf : List Node → List Char
  | [] => []
  | node :: rest => node.margin.text ++ (node.bare ++ '\n' :: linesOf rest)

end

/-- The lines of a node without the end of the last one. -/
def Node.text (node : Node) : List Char :=
  node.margin.text ++ node.bare

theorem linesOf_cons (node : Node) (rest : List Node) :
    linesOf (node :: rest) = node.text ++ '\n' :: linesOf rest := by
  rw [linesOf, Node.text, List.append_assoc]

def modifiersOf (isStatic : Bool) : List String :=
  if isStatic then ["static"] else []

mutual

/-- The member that a node stands for when its text begins at an offset. -/
def Node.placed (source : List Char) (start : Nat) : Node → Member
  | .property front isStatic isVariable name type =>
    let first := start + front.margin.text.length
    .property {
      attributes := attributesAt first front.marks
      modifiers := modifiersOf isStatic
      specifier := specifierOf isVariable
      bindings := [⟨String.ofList name.text, some (String.ofList type.text), none, none⟩]
      start := first
      stop := start + (Node.property front isStatic isVariable name type).text.length }
  | .cases front element rest =>
    let first := start + front.margin.text.length
    .cases {
      attributes := attributesAt first front.marks
      modifiers := []
      elements := (element :: rest).map Element.caseElement
      start := first
      stop := start + (Node.cases front element rest).text.length }
  | .initializer front params inside =>
    let first := start + front.margin.text.length
    .initializer {
      attributes := attributesAt first front.marks
      modifiers := []
      parameters := params.map Param.parameter
      start := first
      stop := start + (Node.initializer front params inside).text.length
      failable := false }
  | .function margin function =>
    .other ⟨"func", start + margin.text.length, start + (Node.function margin function).text.length⟩
  | .type front keyword name inherited body last =>
    let first := start + front.margin.text.length
    let keywordStart := start + front.text.length
    let bodyStart := keywordStart + (headText keyword name inherited).length + 1
    .type {
      keyword := String.ofList keyword.text
      name := String.ofList name.text
      attributes := attributesAt first front.marks
      modifiers := []
      inherited := inherited.map fun name => String.ofList name.text
      start := first
      keywordStart := keywordStart
      bodyStart := bodyStart
      bodyEnd := bodyStart + 2 + (linesOf body).length + last.text.length
      line := (source.take keywordStart).count '\n' + 1 }
      (placedAll source (bodyStart + 2) body) []

/-- The members that the lines of nodes stand for. -/
def placedAll (source : List Char) (start : Nat) : List Node → List Member
  | [] => []
  | node :: rest => node.placed source start :: placedAll source (start + node.text.length + 1) rest

end

def Mark.found (mark : Mark) : Attribute :=
  ⟨String.ofList mark.name.text, mark.argument.map fun literal => [String.ofList literal.text],
    0, 0⟩

mutual

def Node.member : Node → Member
  | .property front isStatic isVariable name type =>
    .property {
      attributes := front.marks.map Mark.found
      modifiers := modifiersOf isStatic
      specifier := specifierOf isVariable
      bindings := [⟨String.ofList name.text, some (String.ofList type.text), none, none⟩]
      start := 0, stop := 0 }
  | .cases front element rest =>
    .cases {
      attributes := front.marks.map Mark.found
      modifiers := []
      elements := (element :: rest).map Element.caseElement
      start := 0, stop := 0 }
  | .initializer front params _ =>
    .initializer {
      attributes := front.marks.map Mark.found
      modifiers := []
      parameters := params.map Param.parameter
      start := 0, stop := 0 }
  | .function _ _ => .other ⟨"func", 0, 0⟩
  | .type front keyword name inherited body _ =>
    .type {
      keyword := String.ofList keyword.text
      name := String.ofList name.text
      attributes := front.marks.map Mark.found
      modifiers := []
      inherited := inherited.map fun name => String.ofList name.text
      start := 0, keywordStart := 0, bodyStart := 0, bodyEnd := 0, line := 0 }
      (membersOf body) []

def membersOf : List Node → List Member
  | [] => []
  | node :: rest => node.member :: membersOf rest

end

theorem withoutPlace_attributesAt (start : Nat) (marks : List Mark) :
    (attributesAt start marks).map Attribute.withoutPlace = marks.map Mark.found := by
  induction marks generalizing start with
  | nil => rfl
  | cons mark rest ih =>
      rw [attributesAt, List.map_cons, ih, List.map_cons]
      rfl

mutual

/-- Placing a node adds nothing but places. -/
theorem withoutPlaces_placed (source : List Char) (start : Nat) : ∀ node : Node,
    (node.placed source start).withoutPlaces = node.member
  | .property .. => by
      simp only [Node.placed, Member.withoutPlaces, Node.member, withoutPlace_attributesAt]
  | .cases .. => by
      simp only [Node.placed, Member.withoutPlaces, Node.member, withoutPlace_attributesAt]
  | .initializer .. => by
      simp only [Node.placed, Member.withoutPlaces, Node.member, withoutPlace_attributesAt]
  | .function .. => rfl
  | .type front keyword name inherited body last => by
      simp only [Node.placed, Member.withoutPlaces, Node.member, Header.withoutPlaces,
        withoutPlace_attributesAt, withoutPlaces_placedAll _ _ body, withoutPlacesAll]

theorem withoutPlaces_placedAll (source : List Char) (start : Nat) : ∀ nodes : List Node,
    withoutPlacesAll (placedAll source start nodes) = membersOf nodes
  | [] => rfl
  | node :: rest => by
      rw [placedAll, withoutPlacesAll, withoutPlaces_placed _ _ node,
        withoutPlaces_placedAll _ _ rest, membersOf]

end

/-- The place between the braces of a type. -/
def TypeKeyword.place : TypeKeyword → Reader.Place
  | .enumType => .enumBody
  | _ => .typeBody

mutual

/-- Types stand anywhere, case lines in enums, and other members in types. -/
def Node.fits (place : Reader.Place) : Node → Bool
  | .cases .. => place == .enumBody
  | .type _ keyword _ _ body _ => place != .protocolBody && allFit keyword.place body
  | _ => place == .typeBody || place == .enumBody

def allFit (place : Reader.Place) : List Node → Bool
  | [] => true
  | node :: rest => node.fits place && allFit place rest

end

end Outline

end Fakery
