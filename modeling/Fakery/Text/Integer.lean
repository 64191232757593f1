import Fakery.Text.Alphabet
import Fakery.Text.Blank

/-!
# Integers written as text

A decimal integer may be surrounded by white space, carry one sign, use the
decimal digits of any script and separate digits by single underscores.
-/

namespace Fakery.Text

def maxIntegerDigits : Nat := 4300

/-- Digit values of a run of digits in which single underscores may stand between
digits.  `afterDigit` says whether an underscore or the end may come next. -/
def digitRun (afterDigit : Bool) : List Char → Option (List Nat)
  | [] => if afterDigit then some [] else none
  | c :: rest =>
    match decimalDigit? c with
    | some d => (digitRun true rest).map (d :: ·)
    | none => if c == '_' && afterDigit then digitRun false rest else none

/-- The value of a hexadecimal digit. -/
def hexDigit? (c : Char) : Option Nat :=
  if c.isDigit then some (c.toNat - 48)
  else if 'a' ≤ c && c ≤ 'f' then some (c.toNat - 87)
  else if 'A' ≤ c && c ≤ 'F' then some (c.toNat - 55)
  else none

def ofDigits (base : Nat) (digits : List Nat) : Nat :=
  digits.foldl (fun n d => n * base + d) 0

/-- Reads a natural number without sign or surrounding white space. -/
def readNatural (cs : List Char) : Option Nat :=
  match digitRun false cs with
  | some digits => if digits.length ≤ maxIntegerDigits then some (ofDigits 10 digits) else none
  | none => none

def readInteger (cs : List Char) : Option Int :=
  match trim cs with
  | '-' :: rest => (readNatural rest).map fun n => -(n : Int)
  | '+' :: rest => (readNatural rest).map Int.ofNat
  | rest => (readNatural rest).map Int.ofNat

end Fakery.Text
