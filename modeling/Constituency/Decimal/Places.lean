import Constituency.Decimal.Binary

/-!
# A fixed number of digits

`fixedText` writes a number with a given number of digits after the point, `scientificText` with one
digit before the point, a given number after it, and an exponent of ten. Both round the exact value,
half to even, and keep the sign of a number that rounds to zero.
-/
namespace Constituency.Decimal

/-- The digits of `count` with a point before the last `places` of them. -/
def pointed (places count : Nat) : List Char :=
  let written := paddedDigits (places + 1) count
  let whole := written.length - places
  written.take whole ++ '.' :: written.drop whole

/-- The text of a number with exactly `places` digits after the point. -/
def Binary.fixedText (places : Nat) : Binary → List Char
  | .undefined => undefinedText
  | .infinite negative => infinity negative
  | .finite negative mantissa exponent =>
    let units := overPlace mantissa exponent (-places)
    sign negative ++ pointed places (roundHalfEven units.1 units.2)

/-- The greatest power of ten, from `10 ^ place` downwards, that does not exceed a number. -/
def leadingPlace (mantissa : Nat) (exponent : Int) : Nat → Int → Int
  | 0, place => place
  | fuel + 1, place =>
    let units := overPlace mantissa exponent place
    if units.2 ≤ units.1 then place else leadingPlace mantissa exponent fuel (place - 1)

/-- A positive number as one digit and `places` more, with the power of ten of the first digit. -/
def scientific (places mantissa : Nat) (exponent : Int) : Nat × Int :=
  let place := leadingPlace mantissa exponent 3 (placeAbove mantissa exponent)
  let units := overPlace mantissa exponent (place - places)
  let count := roundHalfEven units.1 units.2
  if count < tenTo (places + 1) then (count, place) else (count / 10, place + 1)

/-- An integer with a sign only if it is negative. -/
def integerText (n : Int) : List Char :=
  sign (n < 0) ++ digits n.natAbs

/-- The text of a number with one digit before the point, `places` after it, and an exponent. -/
def Binary.scientificText (places : Nat) : Binary → List Char
  | .undefined => undefinedText
  | .infinite negative => infinity negative
  | .finite negative mantissa exponent =>
    let written := if mantissa = 0 then (0, 0) else scientific places mantissa exponent
    sign negative ++ pointed places written.1 ++ 'e' :: integerText written.2

end Constituency.Decimal
