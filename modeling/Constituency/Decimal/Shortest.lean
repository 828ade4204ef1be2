import Constituency.Decimal.Binary

/-!
# The fewest digits that read back

A decimal reads back as a double when it lies in the interval of numbers that round to it. The
interval is bounded by the midpoints to the two neighbouring doubles, and its ends belong to it when
the mantissa is even. `shortest` looks for the coarsest power of ten with a multiple in the
interval; of two multiples the one nearer to the number wins, and the greater one if both are
equally near.
-/
namespace Constituency.Decimal

/-- The numbers that round to a given double, in quarters of `2 ^ exponent`. -/
structure Interval where
  lower : Nat
  center : Nat
  upper : Nat
  closed : Bool
deriving DecidableEq, Repr

/-- The gap below a power of two is half as wide, unless the exponent cannot go lower. -/
def Interval.around (mantissa : Nat) (exponent : Int) : Interval :=
  let narrow := mantissa = twoTo 52 ∧ -1074 < exponent
  { lower := 4 * mantissa - if narrow then 1 else 2
    center := 4 * mantissa
    upper := 4 * mantissa + 2
    closed := mantissa % 2 = 0 }

/-- Whether `count` units, a unit being `den / num` quarters, lie in the interval. -/
def Interval.holds (i : Interval) (num den count : Nat) : Bool :=
  let lower := i.lower * num
  let upper := i.upper * num
  let value := count * den
  if i.closed then decide (lower ≤ value ∧ value ≤ upper)
  else decide (lower < value ∧ value < upper)

/-- The multiple of `den / num` nearest to the interval's center among those inside. -/
def Interval.nearest? (i : Interval) (num den : Nat) : Option Nat :=
  let below := i.center * num / den
  let above := below + 1
  match i.holds num den below, i.holds num den above with
  | true, true =>
    if above * den - i.center * num ≤ i.center * num - below * den then some above else some below
  | true, false => some below
  | false, true => some above
  | false, false => none

/-- Tries the powers of ten from `10 ^ place` downwards. -/
def Interval.coarsest (i : Interval) (exponent : Int) : Nat → Int → Nat × Int
  | 0, place => (i.center, place)
  | fuel + 1, place =>
    let unit := overPlace 1 (exponent - 2) place
    match i.nearest? unit.1 unit.2 with
    | some count => (count, place)
    | none => i.coarsest exponent fuel (place - 1)

/-- The shortest decimal `count * 10 ^ place` that reads back as `mantissa * 2 ^ exponent`.
Seventeen significant digits always suffice, so that the search ends within twenty steps. -/
def shortest (mantissa : Nat) (exponent : Int) : Nat × Int :=
  (Interval.around mantissa exponent).coarsest exponent 20 (placeAbove mantissa exponent)

/-- The decimal `count * 10 ^ place` without an exponent, and without a point if it is whole. -/
def positional (count : Nat) (place : Int) : List Char :=
  if 0 ≤ place then digits count ++ List.replicate place.toNat '0'
  else
    let written := paddedDigits ((-place).toNat + 1) count
    let whole := written.length - (-place).toNat
    written.take whole ++ '.' :: written.drop whole

/-- The text of a number with the fewest digits that read back. -/
def Binary.shortestText : Binary → List Char
  | .undefined => undefinedText
  | .infinite negative => infinity negative
  | .finite negative mantissa exponent =>
    sign negative ++
      if mantissa = 0 then ['0']
      else
        let decimal := shortest mantissa exponent
        positional decimal.1 decimal.2

end Constituency.Decimal
