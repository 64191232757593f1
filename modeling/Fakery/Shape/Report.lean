import Fakery.Text.Alphabet
import Fakery.Shape.WrittenType
import Fakery.Source.Declaration

/-!
# Shape of a declaration

The part of a type declaration that decides how a fake value is built: its
fields, enum cases, constructors and conformances.  Members under `#if` do not
count.
-/

namespace Fakery

/-- A property of a declaration. -/
structure Field where
  name : String
  type : Option WrittenType
  isStatic : Bool := false
  isStored : Bool := true
  /-- Whether a default annotation stands on the property at all. -/
  isAnnotated : Bool := false
  /-- The expression the annotation carries. -/
  expression : Option String := none
  deriving DecidableEq, Repr

namespace Field

/-- An annotation counts only with an expression. -/
def hasCustomDefault (field : Field) : Bool :=
  field.isAnnotated && field.expression.isSome

def hasHelper (field : Field) : Bool :=
  field.isStored && field.hasCustomDefault && field.type.isSome

end Field

structure AssociatedValue where
  type : WrittenType
  label : Option String := none
  deriving DecidableEq, Repr

structure EnumCase where
  name : String
  values : Option (List AssociatedValue) := none
  deriving DecidableEq, Repr

structure ConstructorParameter where
  name : String
  type : WrittenType
  label : Option String := none
  deriving DecidableEq, Repr

/-- An initializer of the declaration body.  `decodes` marks `init(from decoder: Decoder)`. -/
structure Constructor where
  parameters : List ConstructorParameter
  decodes : Bool := false
  deriving DecidableEq, Repr

inductive Shape where
  | structLike (keyword : String)
  | enumLike (cases : List EnumCase)
  deriving DecidableEq, Repr

structure Report where
  name : String
  keyword : String
  shape : Option Shape
  fields : List Field := []
  constructors : List Constructor := []
  conformances : List String := []
  deriving DecidableEq, Repr

namespace Report

/-- Stored, typed instance fields, in declaration order. -/
def candidates (report : Report) : List Field :=
  report.fields.filter fun field => field.isStored && !field.isStatic && field.type.isSome

def statics (report : Report) : List Field :=
  report.fields.filter fun field => field.isStored && field.isStatic

/-- The first stored field of a name. -/
def field? (report : Report) (name : String) : Option Field :=
  report.fields.find? fun field => field.isStored && field.name == name

end Report

/-- The attribute that gives a property its own default. -/
def defaultAttribute : String := "AutoFakeDefault"

/-- The rest of a text behind a leading name: a word that does not begin with a
digit, or any text in backticks. -/
def dropName? : List Char → Option (List Char)
  | [] => none
  | c :: rest =>
    if c == '`' then
      match rest.span (· != '`') with
      | (_ :: _, _ :: rest) => some rest
      | _ => none
    else if Text.isWordStart c then some (rest.dropWhile Text.isWord)
    else none

/-- Removes a leading argument label `name:`.  A double colon is no label. -/
def dropLabel (cs : List Char) : List Char :=
  match dropName? cs with
  | none => cs
  | some rest =>
    match rest.dropWhile Text.isBlank with
    | ':' :: ':' :: _ => cs
    | ':' :: rest => rest.dropWhile Text.isBlank
    | _ => cs

/-- The expression of a default annotation: its first argument without label. -/
def annotationExpression (found : Attribute) : Option String :=
  match found.arguments with
  | some (argument :: _) =>
    let expression := Text.trim (dropLabel argument.toList)
    if expression.isEmpty then none else some (String.ofList expression)
  | _ => none

/-- The name a conformance begins with, when nothing but a generic clause follows. -/
def conformanceName? (entry : String) : Option String :=
  let cs := Text.trim entry.toList
  match cs with
  | [] => none
  | c :: rest =>
    if Text.isWordStart c then
      let name := c :: rest.takeWhile Text.isWord
      match (rest.dropWhile Text.isWord).dropWhile Text.isBlank with
      | [] => some (String.ofList name)
      | '<' :: clause => if clause.getLast? == some '>' then some (String.ofList name) else none
      | _ => none
    else none

/-- Observers leave a property stored, all other accessors compute it. -/
def Binding.isStored (binding : Binding) : Bool :=
  match binding.accessor with
  | none => true
  | some .getter => false
  | some (.accessors specifiers) => specifiers.all fun s => s == "willSet" || s == "didSet"

/-- A property counts as stored if it has one binding only. -/
def Property.isStored (property : Property) : Bool :=
  match property.bindings with
  | [binding] => binding.isStored
  | _ => false

namespace Field

/-- The field of a property, unless its first binding introduces no single name. -/
def ofProperty? (property : Property) : Option Field :=
  match property.bindings with
  | [] => none
  | binding :: _ =>
    if binding.isIdentifier then
      let found := findAttribute defaultAttribute property.attributes
      some {
        name := binding.pattern
        type := (binding.typeText.filter (· != "")).map WrittenType.ofText
        isStatic := property.modifiers.contains "static"
        isStored := property.isStored
        isAnnotated := found.isSome
        expression := found.bind annotationExpression }
    else none

end Field

def EnumCase.ofElement (element : CaseElement) : EnumCase :=
  { name := element.name
    values := element.parameters.map fun parameters =>
      parameters.map fun parameter => ⟨WrittenType.ofText parameter.typeText, parameter.label⟩ }

namespace ConstructorParameter

/-- A parameter is named by its second name only if the first is a wildcard. -/
def ofParameter (parameter : Parameter) : ConstructorParameter :=
  let unlabeled := parameter.firstName == "_"
  let name :=
    match parameter.secondName with
    | some second => if unlabeled && second != "" then second else parameter.firstName
    | none => parameter.firstName
  { name
    type := WrittenType.ofText parameter.typeText
    label := if unlabeled then none else some parameter.firstName }

end ConstructorParameter

/-- `init(from decoder: Decoder)`, whatever parameters follow. -/
def Initializer.decodes (declared : Initializer) : Bool :=
  match declared.parameters with
  | [] => false
  | first :: _ =>
    first.firstName == "from" && first.secondName == some "decoder"
      && Text.trimmed first.typeText == "Decoder"

def Constructor.ofInitializer (declared : Initializer) : Constructor :=
  ⟨declared.parameters.map ConstructorParameter.ofParameter, declared.decodes⟩

/-- The keywords whose declarations are built like structs. -/
def isStructLike (keyword : String) : Bool :=
  keyword == "struct" || keyword == "class" || keyword == "actor"

namespace Report

def enumCases (members : List Member) : List EnumCase :=
  (members.filterMap Member.cases?).flatMap fun group => group.elements.map EnumCase.ofElement

/-- The shape of a declaration; none if it is neither struct-like nor an enum. -/
def ofDecl (decl : TypeDecl) : Report :=
  { name := decl.header.name
    keyword := decl.header.keyword
    shape :=
      if decl.header.keyword == "enum" then some (.enumLike (enumCases decl.members))
      else if isStructLike decl.header.keyword then some (.structLike decl.header.keyword)
      else none
    fields := (decl.members.filterMap Member.property?).filterMap Field.ofProperty?
    constructors := (decl.members.filterMap Member.initializer?).map Constructor.ofInitializer
    conformances := decl.header.inherited.filterMap conformanceName? }

end Report

end Fakery
