/-!
# Log records

What a run has to say about itself.  Records are values; the command line decides
which of them are shown and where.
-/

namespace Fakery

inductive LogLevel where
  | debug
  | info
  | error
  deriving DecidableEq, Repr

def LogLevel.name : LogLevel → String
  | .debug => "DEBUG"
  | .info => "INFO"
  | .error => "ERROR"

/-- A message with its level and the component that speaks. -/
structure LogRecord where
  level : LogLevel
  component : String
  message : String
  deriving DecidableEq, Repr

end Fakery
