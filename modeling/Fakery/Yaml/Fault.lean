import Fakery.Text.Integer
import Fakery.Text.Quoted

/-!
# Faults of a YAML text

A text may be malformed, or well formed with a scalar that is not a value of its
type, or one that has no text because it stands for itself.
-/

namespace Fakery.Yaml

/-- The part of a date or time that is out of its range. -/
inductive DateFault where
  | year (value : Nat)
  | month
  | day
  | hour
  | minute
  | second
  /-- An offset from universal time, in minutes, of a day or more. -/
  | offset (minutes : Int)
  deriving DecidableEq, Repr

inductive Fault where
  | malformed
  | integer (base : Nat) (text : String)
  | longInteger (digits : Nat)
  | float (text : String)
  /-- A place in base sixty that is out of the range of numbers with a point. -/
  | largePlace
  | truth (text : String)
  | emptyNumber
  | date (fault : DateFault)
  | timestamp
  /-- A timestamp that is written as a mapping. -/
  | mappedTimestamp
  | codePoint
  /-- A code that does not fit into thirty-one bits. -/
  | largeCode
  /-- A scalar that stands for itself. -/
  | endless
  deriving DecidableEq, Repr

/-- A span of minutes as days and seconds. -/
def spanText (minutes : Int) : String :=
  let days := minutes.fdiv 1440
  let seconds := (minutes - days * 1440) * 60
  let parts := (if days == 0 then [] else ["days=" ++ toString days])
    ++ (if seconds == 0 then [] else ["seconds=" ++ toString seconds])
  "datetime.timedelta(" ++ (if parts.isEmpty then "0" else String.intercalate ", " parts) ++ ")"

def DateFault.message : DateFault → String
  | .year value => "year " ++ toString value ++ " is out of range"
  | .month => "month must be in 1..12"
  | .day => "day is out of range for month"
  | .hour => "hour must be in 0..23"
  | .minute => "minute must be in 0..59"
  | .second => "second must be in 0..59"
  | .offset minutes =>
    "offset must be a timedelta strictly between -timedelta(hours=24) and timedelta(hours=24), not "
      ++ spanText minutes

def Fault.message : Fault → String
  | .malformed => "<yaml error>"
  | .integer base text =>
    "invalid literal for int() with base " ++ toString base ++ ": "
      ++ String.ofList ((Text.quoted text).toList.take 200)
  | .longInteger digits =>
    "Exceeds the limit (" ++ toString Text.maxIntegerDigits
      ++ " digits) for integer string conversion: value has " ++ toString digits
      ++ " digits; use sys.set_int_max_str_digits() to increase the limit"
  | .float text => "could not convert string to float: " ++ Text.quoted text
  | .largePlace => "int too large to convert to float"
  | .truth text => Text.quoted text
  | .emptyNumber => "string index out of range"
  | .date fault => fault.message
  | .timestamp => "not a timestamp"
  | .mappedTimestamp => "expected string or bytes-like object, got 'list'"
  | .codePoint => "chr() arg not in range(0x110000)"
  | .largeCode => "Python int too large to convert to C int"
  | .endless => "maximum recursion depth exceeded"

end Fakery.Yaml
