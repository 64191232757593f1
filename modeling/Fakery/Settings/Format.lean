/-!
# Indentation of generated code
-/

namespace Fakery

/-- How generated members are indented. -/
structure Format where
  indent : Int := 4
  useTabs : Bool := false
  deriving DecidableEq, Repr

/-- One level of indentation: a tab, or as many spaces as `indent` says. -/
def Format.unit (format : Format) : String :=
  if format.useTabs then "\t" else String.ofList (List.replicate format.indent.toNat ' ')

end Fakery
