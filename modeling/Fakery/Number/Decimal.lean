import Fakery.Number.Binary64
import Fakery.Text.Integer

/-!
# Reading decimal numbers

A decimal text may be surrounded by white space and use the decimal digits of any
script.  It has a sign, digits with a point, and an exponent; or it names infinity
or not-a-number.
-/

namespace Fakery.Binary64

/-- A run of digits with what follows. -/
def spanDigits : List Char → List Nat × List Char
  | [] => ([], [])
  | c :: rest =>
    match Text.decimalDigit? c with
    | some d =>
      let (digits, rest) := spanDigits rest
      (d :: digits, rest)
    | none => ([], c :: rest)

/-- The number `digits * 10 ^ exponent`.  Exponents far outside the range are not
multiplied out. -/
def ofDecimal (digits : List Nat) (exponent : Int) : Binary64 :=
  let significant := digits.dropWhile (· == 0)
  let count := Text.ofDigits 10 significant
  let size : Int := significant.length + exponent
  if count == 0 || size < -400 then .finite false 0 minExponent
  else if 400 < size then .infinite false
  else ofRatio false (count * Nat.pow 10 exponent.toNat) (Nat.pow 10 (-exponent).toNat)

/-- The exponent behind the digits, which may be missing. -/
def readExponent (cs : List Char) : Option Int :=
  match cs with
  | [] => some 0
  | e :: rest =>
    if e == 'e' || e == 'E' then
      let (negative, rest) :=
        match rest with
        | '-' :: rest => (true, rest)
        | '+' :: rest => (false, rest)
        | _ => (false, rest)
      match spanDigits rest with
      | ([], _) => none
      | (digits, []) =>
        let value : Int := Text.ofDigits 10 digits
        some (if negative then -value else value)
      | _ => none
    else none

/-- A decimal number without sign. -/
def readUnsigned (cs : List Char) : Option Binary64 :=
  let lower := String.ofList (cs.map Char.toLower)
  if lower == "inf" || lower == "infinity" then some (.infinite false)
  else if lower == "nan" then some .nan
  else
    let (whole, rest) := spanDigits cs
    let (fraction, rest) :=
      match rest with
      | '.' :: behind => spanDigits behind
      | _ => ([], rest)
    if whole.isEmpty && fraction.isEmpty then none
    else (readExponent rest).map fun exponent =>
      ofDecimal (whole ++ fraction) (exponent - fraction.length)

def read (cs : List Char) : Option Binary64 :=
  match Text.trim cs with
  | '-' :: rest => (readUnsigned rest).map negate
  | '+' :: rest => readUnsigned rest
  | rest => readUnsigned rest

end Fakery.Binary64
