/-!
# Floating-point numbers taken apart

A double is a number that is undefined, infinite, or exactly `± mantissa * 2 ^ exponent`. The
printers of this library work on this form in exact integer arithmetic. `overPlace` writes such a
number in units of a power of ten, as a quotient of natural numbers, and `roundHalfEven` rounds a
quotient.
-/
namespace Constituency.Decimal

/-- A double by its value. -/
inductive Binary where
  | undefined
  | infinite (negative : Bool)
  | finite (negative : Bool) (mantissa : Nat) (exponent : Int)
deriving DecidableEq, Repr

/-- The natural power of two. -/
abbrev twoTo (n : Nat) : Nat :=
  Nat.pow 2 n

/-- The natural power of ten. -/
abbrev tenTo (n : Nat) : Nat :=
  Nat.pow 10 n

/-- Reads the sign, the eleven exponent bits and the fifty-two fraction bits of a double. -/
def Binary.ofFloat (x : Float) : Binary :=
  let bits := x.toBits.toNat
  let negative := decide (twoTo 63 ≤ bits)
  let scale : Nat := bits / twoTo 52 % twoTo 11
  let fraction := bits % twoTo 52
  if scale = 2047 then
    if fraction = 0 then .infinite negative else .undefined
  else if scale = 0 then .finite negative fraction (-1074)
  else .finite negative (fraction + twoTo 52) (scale - 1075)

/-- The number `mantissa * 2 ^ exponent` in units of `10 ^ place`: numerator and denominator. -/
def overPlace (mantissa : Nat) (exponent place : Int) : Nat × Nat :=
  (mantissa * twoTo exponent.toNat * tenTo (-place).toNat,
    twoTo (-exponent).toNat * tenTo place.toNat)

/-- The integer nearest to `num / den`; of two equally near ones, the even one. -/
def roundHalfEven (num den : Nat) : Nat :=
  let floor := num / den
  let rest := num % den
  if 2 * rest < den then floor
  else if den < 2 * rest then floor + 1
  else floor + floor % 2

/-- A power of ten that is greater than `mantissa * 2 ^ exponent`, and not by much. -/
def placeAbove (mantissa : Nat) (exponent : Int) : Int :=
  (exponent + mantissa.log2) * 30103 / 100000 + 1

/-- The decimal digits of a number, most significant first. -/
def digits (n : Nat) : List Char :=
  Nat.toDigits 10 n

/-- At least `width` digits, filled up with zeros on the left. -/
def paddedDigits (width n : Nat) : List Char :=
  let written := digits n
  List.replicate (width - written.length) '0' ++ written

/-- The sign of a number that may be negative. -/
def sign (negative : Bool) : List Char :=
  if negative then ['-'] else []

/-- The text of an infinite number. -/
def infinity (negative : Bool) : List Char :=
  sign negative ++ ['i', 'n', 'f']

/-- The text of an undefined number. -/
def undefinedText : List Char :=
  ['N', 'a', 'N']

end Constituency.Decimal
