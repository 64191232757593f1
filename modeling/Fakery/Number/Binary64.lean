/-!
# Double-precision numbers

Finite numbers are a mantissa times a power of two.  Every operation is exact on
ratios of natural numbers and rounds once, to the nearest number and a tie to the
even mantissa.
-/

namespace Fakery

inductive Binary64 where
  /-- The number `mantissa * 2 ^ exponent`. -/
  | finite (negative : Bool) (mantissa : Nat) (exponent : Int)
  | infinite (negative : Bool)
  | nan
  deriving DecidableEq, Repr

namespace Binary64

def mantissaBound : Nat := Nat.pow 2 53

def minExponent : Int := -1074

def maxExponent : Int := 971

/-- The ratio `(num / den) / 2 ^ exponent`. -/
def shiftRatio (num den : Nat) (exponent : Int) : Nat × Nat :=
  (num * Nat.pow 2 (-exponent).toNat, den * Nat.pow 2 exponent.toNat)

/-- Division to the nearest natural number, a tie to the even one. -/
def roundDiv (num den : Nat) : Nat :=
  let quotient := num / den
  let rest := 2 * (num % den)
  if den < rest || (rest == den && quotient % 2 == 1) then quotient + 1 else quotient

/-- The exponent at which the mantissa of a positive ratio has 53 bits, or the least
exponent. -/
def exponentOf (num den : Nat) : Int :=
  let guess : Int := (Nat.log2 num : Int) - (Nat.log2 den : Int) - 52
  let (n, d) := shiftRatio num den guess
  max (if n / d < Nat.pow 2 52 then guess - 1 else guess) minExponent

/-- The number nearest to a ratio. -/
def ofRatio (negative : Bool) (num den : Nat) : Binary64 :=
  if num == 0 then .finite negative 0 minExponent
  else
    let exponent := exponentOf num den
    let (n, d) := shiftRatio num den exponent
    let mantissa := roundDiv n d
    let (mantissa, exponent) :=
      if mantissa == mantissaBound then (mantissaBound / 2, exponent + 1) else (mantissa, exponent)
    if maxExponent < exponent then .infinite negative else .finite negative mantissa exponent

def ofSignedRatio (num : Int) (den : Nat) : Binary64 :=
  ofRatio (num < 0) num.natAbs den

def toRatio (negative : Bool) (mantissa : Nat) (exponent : Int) : Int × Nat :=
  let (n, d) := shiftRatio mantissa 1 (-exponent)
  (if negative then -(n : Int) else n, d)

def negate : Binary64 → Binary64
  | .finite negative mantissa exponent => .finite (!negative) mantissa exponent
  | .infinite negative => .infinite (!negative)
  | .nan => .nan

def add : Binary64 → Binary64 → Binary64
  | .nan, _ => .nan
  | _, .nan => .nan
  | .infinite a, .infinite b => if a == b then .infinite a else .nan
  | .infinite a, _ => .infinite a
  | _, .infinite b => .infinite b
  | .finite a m e, .finite b n f =>
    let (p, q) := toRatio a m e
    let (r, s) := toRatio b n f
    ofSignedRatio (p * s + r * q) (q * s)

/-- The product with a natural number. -/
def scale (factor : Nat) : Binary64 → Binary64
  | .nan => .nan
  | .infinite negative => if factor == 0 then .nan else .infinite negative
  | .finite negative mantissa exponent =>
    let (n, d) := shiftRatio mantissa 1 (-exponent)
    ofRatio negative (n * factor) d

end Binary64

end Fakery
