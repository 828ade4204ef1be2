import Constituency.Decimal.Binary

/-!
# Reading decimals

A numeral is kept as the exact decimal `count * 10 ^ place`. `Numeral.read?` takes one from the
front of a text as a grammar file spells it, without a sign; `readFloat?` reads a whole text and
also knows signs, infinities and the undefined number.
-/
namespace Constituency.Decimal

/-- The exact decimal `count * 10 ^ place`. -/
structure Numeral where
  count : Nat
  place : Int
deriving DecidableEq, Repr

/-- The number that a string of digits spells. -/
def valueOf (ds : List Char) : Nat :=
  ds.foldl (fun n d => 10 * n + (d.toNat - '0'.toNat)) 0

/-- The numeral with the given digits before and after the point, and a power of ten. -/
def Numeral.ofDigits (whole fraction : List Char) (exponent : Int) : Numeral :=
  ⟨valueOf (whole ++ fraction), exponent - fraction.length⟩

/-- The double nearest to a numeral. Decimals beyond the range of doubles on either side are settled
by their leading digit's place, without forming the power of ten. -/
def Numeral.toFloat (n : Numeral) : Float :=
  let top := n.place + (digits n.count).length
  if n.count = 0 || top < -330 then 0
  else if 310 < top then 1 / 0
  else if 0 ≤ n.place then Float.ofScientific n.count false n.place.toNat
  else Float.ofScientific n.count true (-n.place).toNat

/-- Takes a sign from the front of a text: whether it was a minus, and the rest. -/
def readSign : List Char → Bool × List Char
  | '-' :: rest => (true, rest)
  | '+' :: rest => (false, rest)
  | cs => (false, cs)

/-- Takes `e` or `E`, a sign if there is one, and digits; takes nothing if digits are missing. -/
def readExponent (cs : List Char) : Int × List Char :=
  match cs with
  | c :: tail =>
    let signed := readSign tail
    let ds := signed.2.takeWhile Char.isDigit
    if (c = 'e' ∨ c = 'E') ∧ ds ≠ [] then
      (if signed.1 then -(valueOf ds : Int) else valueOf ds, signed.2.dropWhile Char.isDigit)
    else (0, cs)
  | [] => (0, [])

/-- The numeral with the given digits and the exponent that follows it, if one does. -/
def Numeral.withExponent (whole fraction rest : List Char) : Numeral × List Char :=
  let exponent := readExponent rest
  (.ofDigits whole fraction exponent.1, exponent.2)

/-- The digits behind a point with which a text starts. -/
def fractionDigits : List Char → List Char
  | '.' :: tail => tail.takeWhile Char.isDigit
  | _ => []

/-- Takes the longest numeral from the front of a text: digits, or digits that may be missing, a
point and digits; then an exponent if one follows. A point without digits behind it is not taken. -/
def Numeral.read? (cs : List Char) : Option (Numeral × List Char) :=
  let whole := cs.takeWhile Char.isDigit
  let rest := cs.dropWhile Char.isDigit
  let fraction := fractionDigits rest
  if fraction ≠ [] then some (Numeral.withExponent whole fraction (rest.drop (fraction.length + 1)))
  else if whole ≠ [] then some (Numeral.withExponent whole [] rest)
  else none

theorem length_readSign_le (cs : List Char) : (readSign cs).2.length ≤ cs.length := by
  unfold readSign
  split <;> simp only [List.length_cons] <;> omega

theorem length_readExponent_le (cs : List Char) : (readExponent cs).2.length ≤ cs.length := by
  cases cs with
  | nil => exact Nat.le_refl _
  | cons c tail =>
    have hs := length_readSign_le tail
    have hd := (List.dropWhile_suffix Char.isDigit (l := (readSign tail).2)).length_le
    simp only [readExponent]
    split <;> simp only [List.length_cons] <;> omega

theorem length_read?_le {cs rest : List Char} {n : Numeral}
    (h : Numeral.read? cs = some (n, rest)) : rest.length ≤ cs.length := by
  have hd := (List.dropWhile_suffix Char.isDigit (l := cs)).length_le
  simp only [Numeral.read?, Numeral.withExponent] at h
  split at h
  · cases h
    have := length_readExponent_le ((cs.dropWhile Char.isDigit).drop
      ((fractionDigits (cs.dropWhile Char.isDigit)).length + 1))
    simp only [List.length_drop] at this
    omega
  · split at h
    · cases h
      have := length_readExponent_le (cs.dropWhile Char.isDigit)
      omega
    · cases h

/-- Reads a whole text as a number without a sign. A point needs digits on one side only. -/
def readUnsigned? (cs : List Char) : Option Float :=
  let spelled := cs.map Char.toLower
  if spelled = "inf".toList || spelled = "infinity".toList then some (1 / 0)
  else if spelled = "nan".toList then some (0 / 0)
  else
    let whole := cs.takeWhile Char.isDigit
    let rest := cs.dropWhile Char.isDigit
    let fraction := fractionDigits rest
    let behind := if rest.head? = some '.' then rest.drop (fraction.length + 1) else rest
    let exponent := readExponent behind
    if (whole ≠ [] ∨ fraction ≠ []) ∧ exponent.2 = [] then
      some (Numeral.ofDigits whole fraction exponent.1).toFloat
    else none

/-- Reads a whole text as a double. -/
def readFloat? (text : String) : Option Float :=
  let signed := readSign text.toList
  (readUnsigned? signed.2).map fun x => if signed.1 then -x else x

end Constituency.Decimal
