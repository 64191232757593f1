import Fakery.Number.Binary64

/-!
# Shortest decimal text

A number is written with the fewest digits that read back as the same number; of
several such texts the nearest one is taken.
-/

namespace Fakery

namespace Binary64

/-- The numbers that round to a given one, and that number itself, over one
denominator.  The ends belong to the interval if `closed` is set. -/
structure Interval where
  low : Nat
  value : Nat
  high : Nat
  den : Nat
  closed : Bool
  deriving DecidableEq, Repr

/-- The interval of a positive number.  Below a power of two the neighbours are
closer. -/
def interval (mantissa : Nat) (exponent : Int) : Interval :=
  let (unit, den) := shiftRatio 1 1 (2 - exponent)
  let below := if mantissa == mantissaBound / 2 && minExponent < exponent then 1 else 2
  ⟨(4 * mantissa - below) * unit, 4 * mantissa * unit, (4 * mantissa + 2) * unit, den,
    mantissa % 2 == 0⟩

/-- The multiples `count * 10 ^ place` as ratios. -/
def gridPoint (count : Nat) (place : Int) : Nat × Nat :=
  (count * Nat.pow 10 place.toNat, Nat.pow 10 (-place).toNat)

namespace Interval

def contains (interval : Interval) (point : Nat × Nat) : Bool :=
  let (n, d) := point
  if interval.closed then
    interval.low * d ≤ n * interval.den && n * interval.den ≤ interval.high * d
  else interval.low * d < n * interval.den && n * interval.den < interval.high * d

/-- The number of the last multiple of `10 ^ place` that is not above the value. -/
def floorAt (interval : Interval) (place : Int) : Nat :=
  interval.value * Nat.pow 10 (-place).toNat / (interval.den * Nat.pow 10 place.toNat)

/-- The multiple of `10 ^ place` that is nearest to the value among its two
neighbours inside the interval. -/
def nearest? (interval : Interval) (place : Int) : Option Nat :=
  let count := interval.floorAt place
  let below := interval.contains (gridPoint count place)
  let above := interval.contains (gridPoint (count + 1) place)
  if below && above then
    let (n, d) := gridPoint (2 * count + 1) place
    let middle := compare (interval.value * 2 * d) (n * interval.den)
    some (match middle with
      | .lt => count
      | .gt => count + 1
      | .eq => if count % 2 == 0 then count else count + 1)
  else if below then some count
  else if above then some (count + 1)
  else none

/-- The first grid, from coarse to fine, with a multiple inside the interval. -/
def coarsest (interval : Interval) : (steps : Nat) → (place : Int) → Nat × Int
  | 0, place => (interval.floorAt place, place)
  | steps + 1, place =>
    match interval.nearest? place with
    | some count => (count, place)
    | none => interval.coarsest steps (place - 1)

end Interval

/-- The place above the first digit of a positive ratio: the least `place` with the
ratio below `10 ^ place`, found from `place` downwards. -/
def leadingPlace (num den : Nat) : (steps : Nat) → (place : Int) → Int
  | 0, place => place
  | steps + 1, place =>
    let (n, d) := gridPoint 1 (place - 1)
    if num * d < n * den then leadingPlace num den steps (place - 1) else place

/-- The significant digits of a positive number and the place of the last of them. -/
def shortestDigits (mantissa : Nat) (exponent : Int) : Nat × Int :=
  let found := interval mantissa exponent
  let place := leadingPlace found.value found.den 800 400
  found.coarsest 17 (place - 1)

def dropZeros : (steps count : Nat) → Int → Nat × Int
  | 0, count, place => (count, place)
  | steps + 1, count, place =>
    if count % 10 == 0 && count != 0 then dropZeros steps (count / 10) (place + 1)
    else (count, place)

def zeros (count : Nat) : List Char :=
  List.replicate count '0'

/-- Digits with a decimal point.  `point` is the number of digits before it; from
minus three to sixteen no exponent is needed. -/
def layout (digits : List Char) (point : Int) : List Char :=
  if -4 < point && point ≤ 16 then
    if point ≤ 0 then '0' :: '.' :: zeros (-point).toNat ++ digits
    else
      let whole := point.toNat
      let fraction := digits.drop whole
      digits.take whole ++ zeros (whole - digits.length) ++ '.' ::
        (if fraction.isEmpty then ['0'] else fraction)
  else
    let exponent := point - 1
    let magnitude := (toString exponent.natAbs).toList
    let padded := zeros (2 - magnitude.length) ++ magnitude
    let fraction := digits.drop 1
    digits.take 1 ++ (if fraction.isEmpty then [] else '.' :: fraction)
      ++ 'e' :: (if exponent < 0 then '-' else '+') :: padded

def text : Binary64 → String
  | .nan => "nan"
  | .infinite negative => if negative then "-inf" else "inf"
  | .finite negative mantissa exponent =>
    let magnitude :=
      if mantissa == 0 then ['0', '.', '0']
      else
        let (count, place) := shortestDigits mantissa exponent
        let (count, place) := dropZeros 20 count place
        let digits := (toString count).toList
        layout digits (place + digits.length)
    String.ofList (if negative then '-' :: magnitude else magnitude)

end Binary64

end Fakery
