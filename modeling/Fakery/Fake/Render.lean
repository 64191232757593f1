import Fakery.Fake.Generator
import Fakery.Text.Lines

/-!
# Text of generated members

Members are rendered without outer indentation and separated by blank lines.
`unit` is one level of indentation.
-/

namespace Fakery

def Argument.render (argument : Argument) : String :=
  match argument.label with
  | some label => label ++ ": " ++ argument.value
  | none => argument.value

def renderArguments (arguments : List Argument) : String :=
  Text.joined ", " (arguments.map Argument.render)

def GeneratedParameter.render (parameter : GeneratedParameter) : String :=
  parameter.name ++ ": " ++ parameter.type.text ++ " = " ++ parameter.default

/-- Indents every line of a text but the first and the empty ones.  Line
boundaries of any kind become line feeds. -/
def indentContinuation (unit : String) (text : String) : String :=
  match Text.bareLines text.toList with
  | [] => ""
  | first :: rest =>
    String.ofList <| Text.joinWith ['\n'] <| first :: rest.map fun line =>
      if line.isEmpty then line else unit.toList ++ line

def Helper.render (unit : String) (helper : Helper) : String :=
  Text.joined "\n" [
    "static func " ++ helper.name ++ "() -> " ++ helper.returnType ++ " \x7b",
    unit ++ indentContinuation unit ("return " ++ helper.expression),
    "\x7d"]

def renderCallSuffix : Option (List Argument) → String
  | none => ""
  | some arguments => "(" ++ renderArguments arguments ++ ")"

def GeneratedFunction.render (unit : String) (function : GeneratedFunction) : String :=
  let header := "static func " ++ function.name
  match function.body with
  | .memberReturn member arguments =>
    Text.joined "\n" [
      header ++ "() -> " ++ function.returnType ++ " \x7b",
      unit ++ "return ." ++ member ++ renderCallSuffix arguments,
      "\x7d"]
  | .selfCall arguments =>
    if function.parameters.isEmpty then
      Text.joined "\n" [
        header ++ "() -> " ++ function.returnType ++ " \x7b",
        unit ++ "Self(" ++ renderArguments arguments ++ ")",
        "\x7d"]
    else
      Text.joined "\n" [
        header ++ "(",
        unit ++ Text.joined ", " (function.parameters.map GeneratedParameter.render),
        ") -> " ++ function.returnType ++ " \x7b",
        unit ++ "Self(",
        unit ++ unit ++ renderArguments arguments,
        unit ++ ")",
        "\x7d"]

def GeneratedMember.render (unit : String) : GeneratedMember → String
  | .helper h => h.render unit
  | .function f => f.render unit

/-- Members separated by blank lines. -/
def renderMembers (unit : String) (members : List GeneratedMember) : String :=
  Text.joined "\n\n" (members.map (GeneratedMember.render unit))

end Fakery
