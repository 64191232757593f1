import Fakery.Text.Integer
import Fakery.Yaml.Fault

/-!
# Tags of plain scalars

The type that a plain scalar shows by its spelling alone.
-/

namespace Fakery.Yaml

def coreTag (name : String) : String :=
  "tag:yaml.org,2002:" ++ name

def dropSign : List Char → List Char
  | '-' :: rest => rest
  | '+' :: rest => rest
  | cs => cs

def isDigitOrUnderscore (c : Char) : Bool :=
  c.isDigit || c == '_'

def truthWords : List String := [
  "yes", "Yes", "YES", "no", "No", "NO", "true", "True", "TRUE", "false", "False", "FALSE",
  "on", "On", "ON", "off", "Off", "OFF"]

/-- The digits behind one colon of a number in base sixty. -/
def isSixtieth : List Char → Bool
  | [d] => d.isDigit
  | [d, e] => '0' ≤ d && d ≤ '5' && e.isDigit
  | _ => false

/-- One or more colons with digits, then nothing or, with `point`, a point with
digits. -/
def isSixtieths (point : Bool) : (fuel : Nat) → List Char → Bool
  | 0, _ => false
  | fuel + 1, cs =>
    match cs with
    | ':' :: rest =>
      let digits := rest.takeWhile Char.isDigit
      isSixtieth digits &&
        match rest.dropWhile Char.isDigit with
        | [] => !point
        | '.' :: fraction => point && fraction.all isDigitOrUnderscore
        | more => isSixtieths point fuel more
    | _ => false

/-- Nothing, or an exponent with a sign. -/
def isExponent : List Char → Bool
  | [] => true
  | e :: sign :: d :: rest =>
    (e == 'e' || e == 'E') && (sign == '-' || sign == '+') && d.isDigit && rest.all Char.isDigit
  | _ => false

def isFloat (cs : List Char) : Bool :=
  let unsigned := dropSign cs
  [".inf", ".Inf", ".INF"].contains (String.ofList unsigned)
    || [".nan", ".NaN", ".NAN"].contains (String.ofList cs)
    || (match cs with
      | '.' :: d :: rest => d.isDigit && isExponent (rest.dropWhile isDigitOrUnderscore)
      | _ => false)
    || (match unsigned with
      | d :: rest => d.isDigit &&
        match rest.dropWhile isDigitOrUnderscore with
        | '.' :: fraction => isExponent (fraction.dropWhile isDigitOrUnderscore)
        | more => isSixtieths true cs.length more
      | [] => false)

def isInteger (cs : List Char) : Bool :=
  match dropSign cs with
  | [] => false
  | '0' :: 'b' :: rest => !rest.isEmpty && rest.all fun c => c == '0' || c == '1' || c == '_'
  | '0' :: 'x' :: rest =>
    !rest.isEmpty && rest.all fun c => c.isDigit || c == '_' || ('a' ≤ c && c ≤ 'f')
      || ('A' ≤ c && c ≤ 'F')
  | '0' :: rest => rest.all fun c => ('0' ≤ c && c ≤ '7') || c == '_'
  | d :: rest =>
    d.isDigit &&
      match rest.dropWhile isDigitOrUnderscore with
      | [] => true
      | more => isSixtieths false cs.length more

/-- A moment as it is written; the time is missing if only a date is given. -/
structure Timestamp where
  year : Nat
  month : Nat
  day : Nat
  time : Option (Nat × Nat × Nat)
  /-- The offset from universal time in minutes, if one is written with a sign. -/
  offset : Option Int
  /-- Whether month and day have two digits. -/
  padded : Bool
  deriving DecidableEq, Repr

def digitsValue (cs : List Char) : Nat :=
  Text.ofDigits 10 (cs.map fun c => c.toNat - 48)

/-- A number of `least` to `most` digits, with what follows. -/
def spanNumber (least most : Nat) (cs : List Char) : Option (List Char × List Char) :=
  let digits := cs.takeWhile Char.isDigit
  if least ≤ digits.length && digits.length ≤ most then some (digits, cs.drop digits.length)
  else none

def isBlankOrTab (c : Char) : Bool :=
  c == ' ' || c == '\t'

/-- An offset from universal time, to the end of the text: `Z` is no offset. -/
def readOffset (cs : List Char) : Option (Option Int) :=
  match cs with
  | ['Z'] => some none
  | sign :: rest =>
    if sign == '-' || sign == '+' then
      match spanNumber 1 2 rest with
      | none => none
      | some (hours, rest) =>
        let minutes :=
          match rest with
          | [] => some []
          | ':' :: rest =>
            match spanNumber 2 2 rest with
            | some (minutes, []) => some minutes
            | _ => none
          | _ => none
        minutes.map fun minutes =>
          let total : Int := digitsValue hours * 60 + digitsValue minutes
          some (if sign == '-' then -total else total)
    else none
  | [] => none

/-- The time behind a date, to the end of the text. -/
def readTime (cs : List Char) : Option ((Nat × Nat × Nat) × Option Int) := do
  let rest ←
    match cs with
    | c :: rest =>
      if c == 'T' || c == 't' then some rest
      else if isBlankOrTab c then some (rest.dropWhile isBlankOrTab)
      else none
    | [] => none
  let (hour, rest) ← spanNumber 1 2 rest
  let rest ← if rest.head? == some ':' then some (rest.drop 1) else none
  let (minute, rest) ← spanNumber 2 2 rest
  let rest ← if rest.head? == some ':' then some (rest.drop 1) else none
  let (second, rest) ← spanNumber 2 2 rest
  let rest :=
    match rest with
    | '.' :: fraction => fraction.dropWhile Char.isDigit
    | _ => rest
  let time := (digitsValue hour, digitsValue minute, digitsValue second)
  if rest.isEmpty then return (time, none)
  else
    let offset ← readOffset (rest.dropWhile isBlankOrTab)
    return (time, offset)

def readTimestamp (cs : List Char) : Option Timestamp := do
  let (year, rest) ← spanNumber 4 4 cs
  let rest ← if rest.head? == some '-' then some (rest.drop 1) else none
  let (month, rest) ← spanNumber 1 2 rest
  let rest ← if rest.head? == some '-' then some (rest.drop 1) else none
  let (day, rest) ← spanNumber 1 2 rest
  let padded := month.length == 2 && day.length == 2
  if rest.isEmpty then
    return ⟨digitsValue year, digitsValue month, digitsValue day, none, none, padded⟩
  else
    let (time, offset) ← readTime rest
    return ⟨digitsValue year, digitsValue month, digitsValue day, some time, offset, padded⟩

/-- A date alone shows its type only with two digits for month and day. -/
def isTimestamp (cs : List Char) : Bool :=
  match readTimestamp cs with
  | some stamp => stamp.time.isSome || stamp.padded
  | none => false

/-- A text without a line feed at its end. -/
def dropFinalBreak (cs : List Char) : List Char :=
  if cs.getLast? == some '\n' then cs.dropLast else cs

/-- The tag that the spelling of a scalar shows.  A line feed at the end of the text
does not count. -/
def implicitTag (text : String) : String :=
  let cs := dropFinalBreak text.toList
  let spelled := String.ofList cs
  if truthWords.contains spelled then coreTag "bool"
  else if isFloat cs then coreTag "float"
  else if isInteger cs then coreTag "int"
  else if spelled == "<<" then coreTag "merge"
  else if text == "" || ["~", "null", "Null", "NULL"].contains spelled then coreTag "null"
  else if isTimestamp cs then coreTag "timestamp"
  else if spelled == "=" then coreTag "value"
  else if ["!", "&", "*"].contains spelled then coreTag "yaml"
  else coreTag "str"

end Fakery.Yaml
