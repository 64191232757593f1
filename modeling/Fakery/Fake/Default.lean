import Fakery.Shape.WrittenType

/-!
# Default expressions

The expression a generated parameter defaults to: the call of the field's own
helper, or else an expression that the kind and the name of its type choose.
-/

namespace Fakery

/-- A name without the backticks that let it be a keyword. -/
def withoutBackticks (name : String) : String :=
  String.ofList (name.toList.filter (· != '`'))

/-- The name of the helper that holds the custom default of a field. -/
def helperName (fieldName : String) : String :=
  "_autoFakeDefault_" ++ withoutBackticks fieldName

/-- Literals for well-known types, found by the exact type text. -/
def defaultLiterals : List (String × String) := [
  ("String", "\"\""),
  ("Date", "Date(timeIntervalSinceReferenceDate: 0)"),
  ("Bool", "false"),
  ("URL", "URL(string: \"https://httpbin.org/get\")!"),
  ("Int", "0"),
  ("Double", "0.0"),
  ("Float", "0.0"),
  ("CGFloat", "0.0"),
  ("CGRect", ".zero"),
  ("CGSize", ".zero"),
  ("CGPoint", ".zero")]

/-- The default that the type alone chooses.  A type without literal is expected
to have a `fake()` of its own. -/
def WrittenType.defaultExpression (type : WrittenType) : String :=
  match type.kind with
  | .optional => "nil"
  | .array => "[]"
  | .dictionary => "[:]"
  | .named => (defaultLiterals.lookup type.text).getD ".fake()"

/-- The default of a parameter called `name`. -/
def defaultFor (name : String) (type : WrittenType) (custom : Bool) : String :=
  if custom then helperName name ++ "()" else type.defaultExpression

end Fakery
