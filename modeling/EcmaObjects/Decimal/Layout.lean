/-
  EcmaObjects.Decimal.Layout — how a Number is written.

  The digits are those of `Decimal.shortest`. With the decimal point after the n-th
  digit, a Number is written positionally for `-6 < n ≤ 21` and with a signed exponent
  otherwise; integers have no point, and the zeros share the text `0`.
-/

import EcmaObjects.Decimal.Shortest

namespace EcmaObjects

/-- Where positional writing ends. -/
structure Layout where
  /-- At most this many digits before the point. -/
  widest : Int
  /-- Fewer than this many zeros right after the point. -/
  deepest : Int

/-- Numbers are positional up to 21 digits before the point and five zeros after it. -/
def Number.layout : Layout := ⟨21, 6⟩

namespace Decimal

def zeros (n : Nat) : String := "".pushn '0' n

def exponentText (e : Int) : String := (if e < 0 then "e-" else "e+") ++ toString e.natAbs

/-- The decimal in this layout, with no sign. -/
def write (style : Layout) (d : Decimal) : String :=
  let digits := (toString d.digits).toList
  let count := digits.length
  let point : Int := count + d.exponent
  if 0 < point ∧ point ≤ style.widest then
    if count ≤ point then String.ofList digits ++ zeros (point - count).toNat
    else String.ofList (digits.take point.toNat) ++ "." ++ String.ofList (digits.drop point.toNat)
  else if point ≤ 0 ∧ -style.deepest < point then "0." ++ zeros (-point).toNat ++ String.ofList digits
  else if count = 1 then String.ofList digits ++ exponentText (point - 1)
  else String.ofList (digits.take 1) ++ "." ++ String.ofList (digits.drop 1) ++ exponentText (point - 1)

end Decimal

/-- The text of a Number: what converting it to a string gives. -/
def Number.text (x : Number) : String :=
  if x.isNaN then "NaN"
  else if x.isZero then "0"
  else
    let unsigned := if x.isInfinite then "Infinity" else (Decimal.shortest x).write Number.layout
    if x.isNegative then "-" ++ unsigned else unsigned

end EcmaObjects
