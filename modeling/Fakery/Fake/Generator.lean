import Fakery.Fake.Default
import Fakery.Shape.Report

/-!
# Generated members

The function `fake` of a declaration, built by the first of four strategies that
applies, and the helpers that hold custom defaults.
-/

namespace Fakery

structure Argument where
  value : String
  label : Option String := none
  deriving DecidableEq, Repr

/-- What a generated function returns: `Self(…)`, or `.member` with or without
an argument clause. -/
inductive Body where
  | selfCall (arguments : List Argument)
  | memberReturn (member : String) (arguments : Option (List Argument))
  deriving DecidableEq, Repr

structure GeneratedParameter where
  name : String
  type : WrittenType
  default : String
  deriving DecidableEq, Repr

inductive Strategy where
  | enumFirstCase
  | rawRepresentableSingleton
  | manualConstructor
  | memberwiseDefault
  deriving DecidableEq, Repr, Inhabited

def Strategy.name : Strategy → String
  | .enumFirstCase => "enum_first_case"
  | .rawRepresentableSingleton => "raw_representable_singleton"
  | .manualConstructor => "manual_constructor"
  | .memberwiseDefault => "memberwise_default"

structure GeneratedFunction where
  name : String
  strategy : Strategy
  parameters : List GeneratedParameter
  body : Body
  returnType : String := "Self"
  deriving DecidableEq, Repr

/-- A function without parameters that returns the custom default of one field. -/
structure Helper where
  name : String
  field : String
  returnType : String
  expression : String
  deriving DecidableEq, Repr

inductive GeneratedMember where
  | helper (helper : Helper)
  | function (function : GeneratedFunction)
  deriving DecidableEq, Repr

/-- The declaration is neither struct-like nor an enum. -/
structure UnsupportedDeclaration where
  keyword : String
  name : String
  deriving DecidableEq, Repr

def UnsupportedDeclaration.message (refused : UnsupportedDeclaration) : String :=
  s!"Unsupported type declaration '{refused.keyword} {refused.name}': "
    ++ "only struct, class, actor and enum declarations can generate fakes"

def generatorName : String := "fake"

namespace Report

def firstCase? (report : Report) : Option EnumCase :=
  match report.shape with
  | some (.enumLike (first :: _)) => some first
  | _ => none

/-- The first static field of a struct that conforms to `RawRepresentable`. -/
def singleton? (report : Report) : Option Field :=
  match report.shape with
  | some (.structLike keyword) =>
    if keyword == "struct" && report.conformances.contains "RawRepresentable" then
      report.statics.head?
    else none
  | _ => none

/-- The first constructor that is not the decoding one. -/
def constructor? (report : Report) : Option Constructor :=
  report.constructors.find? fun constructor => !constructor.decodes

def caseFunction (first : EnumCase) : GeneratedFunction :=
  { name := generatorName
    strategy := .enumFirstCase
    parameters := []
    body := .memberReturn first.name <| first.values.map fun values =>
      values.map fun value => ⟨value.type.defaultExpression, value.label⟩ }

def singletonFunction (field : Field) : GeneratedFunction :=
  { name := generatorName
    strategy := .rawRepresentableSingleton
    parameters := []
    body := .memberReturn field.name none }

/-- One parameter per constructor parameter; the custom default of the stored
field with the parameter's name is used if there is one. -/
def constructorFunction (report : Report) (constructor : Constructor) : GeneratedFunction :=
  { name := generatorName
    strategy := .manualConstructor
    parameters := constructor.parameters.map fun parameter =>
      let custom := ((report.field? parameter.name).map Field.hasHelper).getD false
      ⟨parameter.name, parameter.type, defaultFor parameter.name parameter.type custom⟩
    body := .selfCall <| constructor.parameters.map fun parameter =>
      ⟨parameter.name, parameter.label.map withoutBackticks⟩ }

def memberwiseParameter? (field : Field) : Option GeneratedParameter :=
  field.type.map fun type => ⟨field.name, type, defaultFor field.name type field.hasHelper⟩

/-- One parameter per candidate field. -/
def memberwiseFunction (report : Report) : GeneratedFunction :=
  { name := generatorName
    strategy := .memberwiseDefault
    parameters := report.candidates.filterMap memberwiseParameter?
    body := .selfCall <| report.candidates.map fun field =>
      ⟨field.name, some (withoutBackticks field.name)⟩ }

/-- The function `fake` of a declaration. -/
def generator (report : Report) : Except UnsupportedDeclaration GeneratedFunction :=
  if report.shape.isNone then .error ⟨report.keyword, report.name⟩
  else
    match report.firstCase? with
    | some first => .ok (caseFunction first)
    | none =>
      match report.singleton? with
      | some field => .ok (singletonFunction field)
      | none =>
        match report.constructor? with
        | some constructor => .ok (report.constructorFunction constructor)
        | none => .ok report.memberwiseFunction

def helper? (field : Field) : Option Helper :=
  match field.type, field.expression with
  | some type, some expression =>
    if field.hasHelper then some ⟨helperName field.name, field.name, type.text, expression⟩
    else none
  | _, _ => none

def firstOfEachName (seen : List String) : List Helper → List Helper
  | [] => []
  | helper :: rest =>
    if seen.contains helper.name then firstOfEachName seen rest
    else helper :: firstOfEachName (helper.name :: seen) rest

def helpers (report : Report) : List Helper :=
  firstOfEachName [] (report.fields.filterMap helper?)

end Report

structure Generation where
  report : Report
  function : GeneratedFunction
  helpers : List Helper
  deriving DecidableEq, Repr

namespace Generation

/-- The helpers, then the function. -/
def members (generation : Generation) : List GeneratedMember :=
  generation.helpers.map .helper ++ [.function generation.function]

def ofDecl (decl : TypeDecl) : Except UnsupportedDeclaration Generation := do
  let report := Report.ofDecl decl
  let function ← report.generator
  return ⟨report, function, report.helpers⟩

end Generation

end Fakery
