/-
  EcmaObjects.Decimal.Reading — numbers as a person types them.

  A numeral is an optional sign followed by `inf`, `infinity` or `nan` in any case, or
  by digits with at most one point and an optional exponent; there is a digit before
  or after the point. Blanks, other bases and separators are not read. The value is
  the nearest Number.
-/

import EcmaObjects.Number

namespace EcmaObjects

namespace Numeral

/-- The number that decimal digits spell. -/
def valueOf (digits : List Char) : Nat := Nat.ofDigitChars 10 digits 0

/-- A sign, if there is one, and what follows it. -/
def splitSign : List Char → Bool × List Char
  | '-' :: rest => (true, rest)
  | '+' :: rest => (false, rest)
  | rest => (false, rest)

/-- The exponent after the digits: absent, or an `e` with at least one digit. -/
def exponent? : List Char → Option Int
  | [] => some 0
  | c :: rest =>
    let (negative, digits) := splitSign rest
    if (c = 'e' ∨ c = 'E') ∧ digits ≠ [] ∧ digits.all Char.isDigit then
      some (if negative then -(valueOf digits : Int) else valueOf digits)
    else none

/-- The digits after a point, and what follows them; without a point there are none. -/
def splitFraction : List Char → List Char × List Char
  | '.' :: rest => (rest.takeWhile Char.isDigit, rest.dropWhile Char.isDigit)
  | rest => ([], rest)

/-- The Number nearest to `n · 10^e`. Beyond `10^400` and below `10^(-400)` the power no longer matters. -/
def ofDecimal (negative : Bool) (n : Nat) (e : Int) : Number :=
  let leading : Int := (toString n).length + e
  if n = 0 then Number.ofAbsBits negative 0
  else if 400 < leading then Number.infinity negative
  else if leading < -400 then Number.ofAbsBits negative 0
  else Number.ofRatio negative (n * Nat.pow 10 e.toNat) (Nat.pow 10 (-e).toNat)

def decimal? (negative : Bool) (cs : List Char) : Option Number :=
  let whole := cs.takeWhile Char.isDigit
  let (fraction, rest) := splitFraction (cs.dropWhile Char.isDigit)
  if whole = [] ∧ fraction = [] then none
  else (exponent? rest).map fun e => ofDecimal negative (valueOf (whole ++ fraction)) (e - fraction.length)

end Numeral

/-- The Number a numeral names. -/
def Number.ofNumeral? (s : String) : Option Number :=
  let (negative, rest) := Numeral.splitSign s.toList
  let word := String.ofList (rest.map Char.toLower)
  if word = "inf" ∨ word = "infinity" then some (.infinity negative)
  else if word = "nan" then some .nan
  else Numeral.decimal? negative rest

/-- A count below `2^64` as a person types it: digits, perhaps after a plus sign. -/
def Numeral.count? (s : String) : Option Nat :=
  let digits := match s.toList with
    | '+' :: rest => rest
    | rest => rest
  if digits ≠ [] ∧ digits.all Char.isDigit ∧ valueOf digits < 0x10000000000000000 then some (valueOf digits) else none

end EcmaObjects
