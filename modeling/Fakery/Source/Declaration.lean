/-!
# Declarations

What a reader of a source file finds: type declarations with their headers,
attributes and members, each with its place in the text.  Offsets count
characters.  A type declaration keeps the members that stand between `#if` and
`#endif` apart from its direct members.
-/

namespace Fakery

/-- An attribute `@name` or `@name(arguments)`, with the text of each argument. -/
structure Attribute where
  name : String
  arguments : Option (List String)
  start : Nat
  stop : Nat
  deriving DecidableEq, Repr, Inhabited

/-- The block in braces behind a property: the body of a getter, or a list of
accessors and observers. -/
inductive AccessorBlock where
  | getter
  | accessors (specifiers : List String)
  deriving DecidableEq, Repr

/-- One `pattern: Type = value { accessors }` of a property. -/
structure Binding where
  pattern : String
  typeText : Option String := none
  initializer : Option String := none
  accessor : Option AccessorBlock := none
  deriving DecidableEq, Repr, Inhabited

/-- A binding that introduces one name, and neither a tuple nor a wildcard. -/
def Binding.isIdentifier (binding : Binding) : Bool :=
  binding.pattern.toList.head? != some '(' && binding.pattern != "_"

structure Property where
  attributes : List Attribute
  modifiers : List String
  specifier : String
  bindings : List Binding
  start : Nat
  stop : Nat
  deriving DecidableEq, Repr

structure CaseParameter where
  label : Option String
  typeText : String
  deriving DecidableEq, Repr

/-- One name of a `case` line with its associated values or its raw value. -/
structure CaseElement where
  name : String
  parameters : Option (List CaseParameter) := none
  rawValue : Option String := none
  deriving DecidableEq, Repr

structure CaseGroup where
  attributes : List Attribute
  modifiers : List String
  elements : List CaseElement
  start : Nat
  stop : Nat
  deriving DecidableEq, Repr

/-- A parameter of an initializer: `firstName secondName: Type = value`. -/
structure Parameter where
  firstName : String
  secondName : Option String
  typeText : String
  defaultValue : Option String := none
  variadic : Bool := false
  deriving DecidableEq, Repr

structure Initializer where
  attributes : List Attribute
  modifiers : List String
  parameters : List Parameter
  start : Nat
  stop : Nat
  failable : Bool := false
  deriving DecidableEq, Repr

/-- A member of which only the place is kept: a function, a type alias, … -/
structure OtherMember where
  keyword : String
  start : Nat
  stop : Nat
  deriving DecidableEq, Repr, Inhabited

/-- Everything of a type declaration but its members. -/
structure Header where
  keyword : String
  name : String
  attributes : List Attribute
  modifiers : List String
  inherited : List String
  start : Nat
  keywordStart : Nat
  bodyStart : Nat
  bodyEnd : Nat
  line : Nat
  deriving DecidableEq, Repr, Inhabited

inductive Member where
  | property (property : Property)
  | cases (group : CaseGroup)
  | initializer (declared : Initializer)
  | other (member : OtherMember)
  | type (header : Header) (members conditional : List Member)
  deriving Repr

instance : Inhabited Member :=
  ⟨.other default⟩

/-- A type declaration: `members` are its direct members, `conditional` those
between `#if` and `#endif`. -/
structure TypeDecl where
  header : Header
  members : List Member
  conditional : List Member
  deriving Repr

namespace Member

def start : Member → Nat
  | .property p => p.start
  | .cases group => group.start
  | .initializer i => i.start
  | .other member => member.start
  | .type header _ _ => header.start

def typeDecl? : Member → Option TypeDecl
  | .type header members conditional => some ⟨header, members, conditional⟩
  | _ => none

def property? : Member → Option Property
  | .property p => some p
  | _ => none

def cases? : Member → Option CaseGroup
  | .cases group => some group
  | _ => none

def initializer? : Member → Option Initializer
  | .initializer i => some i
  | _ => none

end Member

def findAttribute (name : String) (attributes : List Attribute) : Option Attribute :=
  attributes.find? (·.name == name)

namespace TypeDecl

def toMember (decl : TypeDecl) : Member :=
  .type decl.header decl.members decl.conditional

/-- The type declarations among all members, in the order of the text. -/
def nested (decl : TypeDecl) : List TypeDecl :=
  ((decl.members ++ decl.conditional).mergeSort fun a b => a.start ≤ b.start).filterMap
    Member.typeDecl?

end TypeDecl

end Fakery
