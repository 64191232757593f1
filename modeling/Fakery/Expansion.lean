import Fakery.Edit.Splice
import Fakery.Fake.Render
import Fakery.Log
import Fakery.Source.File
import Fakery.Source.Walk

/-!
# Expansion of a source text

Every declaration that carries the trigger attribute loses it, loses the default
annotations of its direct properties, and gains its generated members before its
closing brace.  Either all annotated declarations are expanded or none is.
-/

namespace Fakery

/-- The attribute that asks for a generated constructor. -/
def triggerAttribute : String := "AutoFake"

structure Summary where
  name : String
  keyword : String
  strategy : Strategy
  parameters : List String
  helpers : List String
  line : Nat
  deriving DecidableEq, Repr

structure Expansion where
  source : List Char
  declarations : List Summary
  deriving DecidableEq, Repr

def Expansion.changed (expansion : Expansion) : Bool :=
  !expansion.declarations.isEmpty

/-- Why a source text cannot be expanded. -/
inductive ExpansionFailure where
  | malformed (error : SyntaxError)
  | unsupported (line : Nat) (refused : UnsupportedDeclaration)
  deriving DecidableEq, Repr

/-- A failure with the name of the file it is in. -/
structure ExpansionError where
  filename : String
  failure : ExpansionFailure
  deriving DecidableEq, Repr

namespace ExpansionError

def message (error : ExpansionError) : String :=
  match error.failure with
  | .malformed syntaxError => error.filename ++ ": " ++ syntaxError.text
  | .unsupported line refused =>
    error.filename ++ ":" ++ toString line ++ ": " ++ refused.message

/-- The declaration that cannot carry a generator. -/
def declaration? (error : ExpansionError) : Option String :=
  match error.failure with
  | .malformed _ => none
  | .unsupported _ refused => some refused.name

end ExpansionError

namespace TypeDecl

def trigger? (decl : TypeDecl) : Option Attribute :=
  findAttribute triggerAttribute decl.header.attributes

def defaultAnnotations (decl : TypeDecl) : List Attribute :=
  (decl.members.filterMap Member.property?).flatMap fun property =>
    property.attributes.filter (·.name == defaultAttribute)

def site (decl : TypeDecl) : Site :=
  ⟨decl.header.keywordStart, decl.header.bodyStart, decl.header.bodyEnd⟩

/-- The attributes that expansion takes out: the trigger, then the default
annotations. -/
def consumed (decl : TypeDecl) : List Attribute :=
  decl.trigger?.toList ++ decl.defaultAnnotations

def edits (source : List Char) (unit : String) (decl : TypeDecl) (generation : Generation) :
    List Edit :=
  decl.consumed.map (fun found => removal source found.start found.stop)
    ++ [insertion source decl.site (renderMembers unit generation.members).toList unit.toList]

def summary (decl : TypeDecl) (generation : Generation) : Summary :=
  { name := decl.header.name
    keyword := decl.header.keyword
    strategy := generation.function.strategy
    parameters := generation.function.parameters.map (·.name)
    helpers := generation.helpers.map (·.name)
    line := decl.header.line }

end TypeDecl

/-- The annotated declarations of a file, in the order in which they are expanded. -/
def annotated (decls : List TypeDecl) : List TypeDecl :=
  (walk decls).filter (·.trigger?.isSome)

/-- Generates the members of every annotated declaration, up to the first that
cannot carry a generator. -/
def generateAll : List TypeDecl → Except ExpansionFailure (List (TypeDecl × Generation))
  | [] => .ok []
  | decl :: rest =>
    match Generation.ofDecl decl with
    | .error refused => .error (.unsupported decl.header.line refused)
    | .ok generation => (generateAll rest).map ((decl, generation) :: ·)

def applyGenerated (source : List Char) (unit : String)
    (generated : List (TypeDecl × Generation)) : Expansion :=
  ⟨Edit.applyAll source (generated.flatMap fun (decl, generation) =>
      decl.edits source unit generation),
    generated.map fun (decl, generation) => decl.summary generation⟩

/-- Expands a source text; `unit` is one level of indentation. -/
def expand (language : Language) (unit filename : String) (source : List Char) :
    Except ExpansionError Expansion :=
  match parse language source with
  | .error error => .error ⟨filename, .malformed error⟩
  | .ok decls =>
    match generateAll (annotated decls) with
    | .error failure => .error ⟨filename, failure⟩
    | .ok generated => .ok (applyGenerated source unit generated)

/-- Properties whose default annotation carries no expression. -/
def TypeDecl.idleAnnotations (decl : TypeDecl) : List Field :=
  (Report.ofDecl decl).fields.filter fun field => field.isAnnotated && field.expression.isNone

/-- The records that the expansion of one declaration leaves. -/
def TypeDecl.log (decl : TypeDecl) : List LogRecord :=
  let idle := decl.idleAnnotations.map fun field =>
    ⟨.debug, "inspector",
      s!"Ignoring @{defaultAttribute} without an argument on '{field.name}'"⟩
  match Generation.ofDecl decl with
  | .error _ => idle
  | .ok generation =>
    let name := decl.header.name
    let strategy := generation.function.strategy.name
    idle ++ [
      ⟨.debug, "synthesizer", s!"Generating {name}.{generatorName} via {strategy}"⟩,
      ⟨.debug, "expander",
        s!"Expanded {decl.header.keyword} {name} via {strategy} "
          ++ s!"({generation.helpers.length} annex helper(s))"⟩]

/-- The records of declarations up to the first that cannot carry a generator. -/
def logAll : List TypeDecl → List LogRecord
  | [] => []
  | decl :: rest =>
    match Generation.ofDecl decl with
    | .error _ => decl.log
    | .ok _ => decl.log ++ logAll rest

/-- The records that the expansion of a source text leaves. -/
def expansionLog (language : Language) (source : List Char) : List LogRecord :=
  match parse language source with
  | .error _ => []
  | .ok decls => logAll (annotated decls)

end Fakery
