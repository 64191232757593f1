import Fakery.Number.Decimal
import Fakery.Yaml.Node

/-!
# Values of scalars

The value that the text of a scalar stands for, by the type of the scalar.
-/

namespace Fakery.Yaml

/-- An integer written in one of the bases 2, 8, 10 and 16, perhaps with the mark of
its base. -/
def readInBase (base : Nat) (cs : List Char) : Option Int :=
  let digit? := fun c : Char =>
    (Text.decimalDigit? c).or ((Text.hexDigit? c).filter fun _ => c.isAlpha)
  let dropMark := fun cs : List Char =>
    match cs with
    | '0' :: mark :: rest =>
      let marks := if base == 2 then ['b', 'B'] else if base == 8 then ['o', 'O']
        else if base == 16 then ['x', 'X'] else []
      if marks.contains mark then rest else cs
    | _ => cs
  let magnitude := fun cs : List Char =>
    let digits := (dropMark cs).map fun c => (digit? c).filter (· < base)
    if digits.isEmpty || digits.any Option.isNone then none
    else some (Text.ofDigits base (digits.filterMap id))
  match Text.trim cs with
  | '-' :: rest => (magnitude rest).map fun n => -(n : Int)
  | '+' :: rest => (magnitude rest).map Int.ofNat
  | rest => (magnitude rest).map Int.ofNat

/-- A whole number in a base, or the fault that it is none.  In base ten the number of
digits is bounded. -/
def integerInBase (base : Nat) (cs : List Char) : Except Fault Int :=
  let digits := (dropSign (Text.trim cs)).takeWhile fun c => (Text.decimalDigit? c).isSome
  if base == 10 && Text.maxIntegerDigits < digits.length then .error (.longInteger digits.length)
  else
    match readInBase base cs with
    | some n => .ok n
    | none => .error (.integer base (String.ofList cs))

/-- A sign and the text behind it; the text of a number may not be empty. -/
def splitSign (cs : List Char) : Except Fault (Bool × List Char) :=
  match cs with
  | [] => .error .emptyNumber
  | '-' :: rest => .ok (true, rest)
  | '+' :: rest => .ok (false, rest)
  | _ => .ok (false, cs)

/-- Underscores in numbers mean nothing. -/
def dropUnderscores (text : String) : List Char :=
  text.toList.filter (· != '_')

/-- The integer that a text stands for; colons separate digits of base sixty. -/
def integerOf (text : String) : Except Fault Int := do
  let (negative, cs) ← splitSign (dropUnderscores text)
  let magnitude ←
    match cs with
    | [] => .error .emptyNumber
    | '0' :: 'b' :: rest => integerInBase 2 rest
    | '0' :: 'x' :: rest => integerInBase 16 rest
    | '0' :: _ => integerInBase 8 cs
    | _ =>
      if cs.contains ':' then do
        let parts ← (Text.splitAt ':' cs).mapM (integerInBase 10)
        pure (parts.foldl (fun total part => total * 60 + part) 0)
      else integerInBase 10 cs
  return if negative then -magnitude else magnitude

def floatIn (cs : List Char) : Except Fault Binary64 :=
  match Binary64.read cs with
  | some x => .ok x
  | none => .error (.float (String.ofList cs))

/-- The sum of digits of base sixty, the last of which comes first; `place` is what the
next one counts. -/
def sumSixtieths : (place : Nat) → List Binary64 → Binary64 → Except Fault Binary64
  | _, [], total => .ok total
  | place, digit :: rest, total =>
    if place < 2 ^ 1024 then sumSixtieths (place * 60) rest (total.add (digit.scale place))
    else .error .largePlace

def floatOf (text : String) : Except Fault Binary64 := do
  let (negative, cs) ← splitSign ((dropUnderscores text).map Char.toLower)
  let magnitude ←
    if cs == ".inf".toList then pure (Binary64.infinite false)
    else if cs == ".nan".toList then pure Binary64.nan
    else if cs.contains ':' then do
      let parts ← (Text.splitAt ':' cs).mapM floatIn
      sumSixtieths 1 parts.reverse (.finite false 0 Binary64.minExponent)
    else floatIn cs
  return if negative then magnitude.negate else magnitude

def truthOf (text : String) : Except Fault Bool :=
  let word := String.ofList (text.toList.map Char.toLower)
  if ["yes", "true", "on"].contains word then .ok true
  else if ["no", "false", "off"].contains word then .ok false
  else .error (.truth word)

/-- The value of a character of a text in base sixty-four. -/
def sextet? (c : Char) : Option Nat :=
  if 'A' ≤ c && c ≤ 'Z' then some (c.toNat - 65)
  else if 'a' ≤ c && c ≤ 'z' then some (c.toNat - 71)
  else if c.isDigit then some (c.toNat + 4)
  else if c == '+' then some 62
  else if c == '/' then some 63
  else none

/-- Bytes written in base sixty-four.  `count` is the number of characters read of the
current group, `left` holds the bits not yet used, and `pads` counts padding.  Other
characters mean nothing. -/
def readSextets : (count left pads : Nat) → List Char → Option (List UInt8)
  | count, _, _, [] => if count == 0 then some [] else none
  | count, left, pads, c :: rest =>
    if c == '=' then
      if 2 ≤ count && 4 ≤ count + pads + 1 then some []
      else readSextets count left (if 2 ≤ count then pads + 1 else pads) rest
    else
      match sextet? c with
      | none => readSextets count left pads rest
      | some x =>
        if count == 0 then readSextets 1 x 0 rest
        else if count == 1 then
          (readSextets 2 (x % 16) 0 rest).map (UInt8.ofNat (left * 4 + x / 16) :: ·)
        else if count == 2 then
          (readSextets 3 (x % 4) 0 rest).map (UInt8.ofNat (left * 16 + x / 4) :: ·)
        else (readSextets 0 0 0 rest).map (UInt8.ofNat (left * 64 + x) :: ·)

def bytesOf (text : String) : Except Fault (List UInt8) :=
  if text.toList.any fun c => 128 ≤ c.toNat then .error .malformed
  else
    match readSextets 0 0 0 text.toList with
    | some bytes => .ok bytes
    | none => .error .malformed

def daysIn (year month : Nat) : Nat :=
  if month == 2 then
    if (year % 4 == 0 && year % 100 != 0) || year % 400 == 0 then 29 else 28
  else if month == 4 || month == 6 || month == 9 || month == 11 then 30
  else 31

/-- The first part of a timestamp that is out of its range. -/
def Timestamp.fault? (stamp : Timestamp) : Option DateFault :=
  let offset := stamp.offset.getD 0
  let (hour, minute, second) := stamp.time.getD (0, 0, 0)
  if 1440 ≤ offset.natAbs then some (.offset offset)
  else if stamp.year == 0 then some (.year 0)
  else if stamp.month == 0 || 12 < stamp.month then some .month
  else if stamp.day == 0 || daysIn stamp.year stamp.month < stamp.day then some .day
  else if 23 < hour then some .hour
  else if 59 < minute then some .minute
  else if 59 < second then some .second
  else none

def checkTimestamp (text : String) : Except Fault Unit :=
  match readTimestamp (dropFinalBreak text.toList) with
  | none => .error .timestamp
  | some stamp =>
    match stamp.fault? with
    | some fault => .error (.date fault)
    | none => .ok ()

inductive Value where
  | null
  | truth (value : Bool)
  | integer (value : Int)
  | float (value : Binary64)
  | text (value : String)
  | bytes (value : List UInt8)
  | date
  | sequence (items : List Node)
  | mapping (node : Node)
  /-- A set, or a list of pairs. -/
  | collection

/-- What the text of a scalar stands for, by the tag of the scalar. -/
def readers : List (String × (String → Except Fault Value)) := [
  (coreTag "null", fun _ => .ok .null),
  (coreTag "bool", fun text => (truthOf text).map .truth),
  (coreTag "int", fun text => (integerOf text).map .integer),
  (coreTag "float", fun text => (floatOf text).map .float),
  (coreTag "binary", fun text => (bytesOf text).map .bytes),
  (coreTag "timestamp", fun text => (checkTimestamp text).map fun _ => .date),
  (coreTag "str", fun text => .ok (.text text))]

end Fakery.Yaml
