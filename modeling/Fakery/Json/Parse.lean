import Fakery.Json.Value
import Fakery.Text.Integer

/-!
# Reading JSON

The readers give back the rest of the text.  Besides the numbers of the standard
the names `NaN` and `Infinity` are numbers.
-/

namespace Fakery.Json

def isSpace (c : Char) : Bool :=
  c == ' ' || c == '\t' || c == '\n' || c == '\r'

def skipSpace (cs : List Char) : List Char :=
  cs.dropWhile isSpace

/-- Four hexadecimal digits. -/
def readUnit (cs : List Char) : Option (Nat × List Char) :=
  let digits := (cs.take 4).filterMap Text.hexDigit?
  if digits.length == 4 then some (Text.ofDigits 16 digits, cs.drop 4) else none

/-- A character by the code of its UTF-16 units, whose first mark is already read. -/
def readEscapedChar (cs : List Char) : Option (Char × List Char) := do
  let (unit, rest) ← readUnit cs
  if 0xD800 ≤ unit && unit < 0xDC00 then
    match rest with
    | '\\' :: 'u' :: rest =>
      let (low, rest) ← readUnit rest
      if 0xDC00 ≤ low && low < 0xE000 then
        return (Char.ofNat (0x10000 + (unit - 0xD800) * 0x400 + (low - 0xDC00)), rest)
      else none
    | _ => none
  else if 0xDC00 ≤ unit && unit < 0xE000 then none
  else return (Char.ofNat unit, rest)

def simpleEscapes : List (Char × Char) := [
  ('"', '"'), ('\\', '\\'), ('/', '/'), ('b', '\x08'), ('f', '\x0c'), ('n', '\n'), ('r', '\r'),
  ('t', '\t')]

/-- The rest of a text whose opening quote is already read. -/
def readText : (fuel : Nat) → List Char → Option (List Char × List Char)
  | 0, _ => none
  | fuel + 1, cs =>
    match cs with
    | [] => none
    | '"' :: rest => some ([], rest)
    | '\\' :: mark :: rest =>
      let found :=
        if mark == 'u' then readEscapedChar rest
        else (simpleEscapes.lookup mark).map (·, rest)
      match found with
      | none => none
      | some (c, rest) => (readText fuel rest).map fun (more, rest) => (c :: more, rest)
    | c :: rest =>
      if c < ' ' || c == '\\' then none
      else (readText fuel rest).map fun (more, rest) => (c :: more, rest)

/-- The whole part of a number: no zero stands before other digits. -/
def readWhole (cs : List Char) : Option (List Char × List Char) :=
  match cs.takeWhile Char.isDigit with
  | [] => none
  | '0' :: _ => some (['0'], cs.drop 1)
  | digits => some (digits, cs.drop digits.length)

def readFraction (cs : List Char) : List Char × List Char :=
  match cs with
  | '.' :: rest =>
    let digits := rest.takeWhile Char.isDigit
    if digits.isEmpty then ([], cs) else ('.' :: digits, rest.drop digits.length)
  | _ => ([], cs)

def readExponent (cs : List Char) : List Char × List Char :=
  match cs with
  | e :: rest =>
    if e == 'e' || e == 'E' then
      let sign := (rest.take 1).filter fun c => c == '-' || c == '+'
      let digits := (rest.drop sign.length).takeWhile Char.isDigit
      if digits.isEmpty then ([], cs)
      else (e :: sign ++ digits, rest.drop (sign.length + digits.length))
    else ([], cs)
  | [] => ([], cs)

def readNumber (cs : List Char) : Option (Json × List Char) := do
  let sign := (cs.take 1).filter (· == '-')
  let (whole, rest) ← readWhole (cs.drop sign.length)
  let (fraction, rest) := readFraction rest
  let (exponent, rest) := readExponent rest
  return (.number (String.ofList (sign ++ whole ++ fraction ++ exponent)), rest)

/-- Values that are single words. -/
def words : List (String × Json) := [
  ("null", .null), ("true", .truth true), ("false", .truth false), ("NaN", .number "NaN"),
  ("Infinity", .number "Infinity"), ("-Infinity", .number "-Infinity")]

def readWord? (cs : List Char) : Option (Json × List Char) :=
  (words.find? fun (word, _) => word.toList.isPrefixOf cs).map fun (word, value) =>
    (value, cs.drop word.length)

mutual

def readValue : (fuel : Nat) → List Char → Option (Json × List Char)
  | 0, _ => none
  | fuel + 1, cs =>
    match cs with
    | '"' :: rest =>
      (readText (fuel + 1) rest).map fun (inside, rest) => (.text (String.ofList inside), rest)
    | '[' :: rest =>
      match skipSpace rest with
      | ']' :: rest => some (.list [], rest)
      | rest => (readItems fuel rest).map fun (items, rest) => (.list items, rest)
    | '\x7b' :: rest =>
      match skipSpace rest with
      | '\x7d' :: rest => some (.object [], rest)
      | rest => (readFields fuel rest).map fun (fields, rest) => (.object fields, rest)
    | _ => (readWord? cs).orElse fun _ => readNumber cs

/-- Items up to the bracket that ends the list. -/
def readItems : (fuel : Nat) → List Char → Option (List Json × List Char)
  | 0, _ => none
  | fuel + 1, cs => do
    let (item, rest) ← readValue fuel (skipSpace cs)
    match skipSpace rest with
    | ']' :: rest => return ([item], rest)
    | ',' :: rest =>
      let (items, rest) ← readItems fuel rest
      return (item :: items, rest)
    | _ => none

/-- Fields up to the brace that ends the object. -/
def readFields : (fuel : Nat) → List Char → Option (List (String × Json) × List Char)
  | 0, _ => none
  | fuel + 1, cs =>
    match skipSpace cs with
    | '"' :: rest => do
      let (name, rest) ← readText (fuel + 1) rest
      match skipSpace rest with
      | ':' :: rest =>
        let (value, rest) ← readValue fuel (skipSpace rest)
        match skipSpace rest with
        | '\x7d' :: rest => return ([(String.ofList name, value)], rest)
        | ',' :: rest =>
          let (fields, rest) ← readFields fuel rest
          return ((String.ofList name, value) :: fields, rest)
        | _ => none
      | _ => none
    | _ => none

end

/-- The value that a whole text stands for. -/
def parse (cs : List Char) : Option Json := do
  let cs := if cs.head? == some '\ufeff' then cs.drop 1 else cs
  let (value, rest) ← readValue (cs.length + 1) (skipSpace cs)
  if (skipSpace rest).isEmpty then some value else none

end Fakery.Json
