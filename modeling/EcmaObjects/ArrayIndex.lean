/-
  EcmaObjects.ArrayIndex — which strings are array indices.

  An array index is a natural number below `2^32 - 1`, and its only spelling is its
  decimal one: no sign, no leading zero, ASCII digits. `arrayIndex?` reads a spelling;
  `toString` writes it.
-/

namespace EcmaObjects

/-- The greatest length an array can have; indices lie below it. -/
def maxArrayLength : Nat := 0xFFFFFFFF

/-- Digits without a needless leading zero. -/
def isCanonicalDecimal (cs : List Char) : Bool :=
  cs.all Char.isDigit && !cs.isEmpty && (cs.head? != some '0' || cs.length == 1)

def arrayIndex? (key : String) : Option Nat :=
  if isCanonicalDecimal key.toList then (some (Nat.ofDigitChars 10 key.toList 0)).filter (· < maxArrayLength) else none

end EcmaObjects
