/-
  EcmaObjects.Number — the Number type, as the 64 bits of an IEEE-754 double.

  Nothing here adds or multiplies Numbers: they are compared, classified, turned into
  array lengths and written as text, and for all of that the bits are read as an
  exact `magnitude · 2^scale` (`Number.magnitude`, `Number.scale`). Exact values come
  in through `Number.ofRatio`, which rounds to nearest, a tie to the even neighbour.
-/

namespace EcmaObjects

structure Number where
  bits : UInt64
  deriving DecidableEq, Repr, Inhabited

namespace Number

/-! ## The fields of the bits -/

def isNegative (x : Number) : Bool := 0x8000000000000000 ≤ x.bits

-- `2^63` is the sign bit, `2^52` the first bit above the fraction.

/-- The bits without the sign. -/
def absBits (x : Number) : Nat := x.bits.toNat % 0x8000000000000000

def exponentField (x : Number) : Nat := x.absBits / 0x10000000000000

def fraction (x : Number) : Nat := x.absBits % 0x10000000000000

/-- The bits of positive infinity; above it the absolute bits are those of a NaN. -/
def infinityBits : Nat := 0x7FF0000000000000

def isNaN (x : Number) : Bool := infinityBits < x.absBits

def isInfinite (x : Number) : Bool := x.absBits == infinityBits

def isZero (x : Number) : Bool := x.absBits == 0

/-- The integer `m` of the value `m · 2^scale`. -/
def magnitude (x : Number) : Nat := if x.exponentField = 0 then x.fraction else 0x10000000000000 + x.fraction

/-- The power of two of the value `magnitude · 2^q`. -/
def scale (x : Number) : Int := (max x.exponentField 1 : Nat) - 1075

/-! ## Making Numbers -/

def zero : Number := ⟨0⟩

def nan : Number := ⟨0x7FF8000000000000⟩

/-- The Number of these absolute bits, with this sign. -/
def ofAbsBits (negative : Bool) (bits : Nat) : Number :=
  ⟨((if negative then 0x8000000000000000 else 0) + bits).toUInt64⟩

def infinity (negative : Bool) : Number := ofAbsBits negative infinityBits

/-- The integer nearest to `n / d`, of two the even one. -/
def roundDiv (n d : Nat) : Nat :=
  let q := n / d
  if 2 * (n % d) < d then q
  else if 2 * (n % d) = d then q + q % 2
  else q + 1

/-- The absolute bits nearest to `n / d`: the ratio is scaled to 53 binary digits, or to
    as many as the smallest scale leaves, and rounded once. -/
def nearestBits (n d : Nat) : Nat :=
  if n = 0 then 0
  else
    let estimate : Int := (Nat.log2 n : Int) - Nat.log2 d - 53
    let fits (q : Int) : Bool := n * Nat.pow 2 (-q).toNat < d * Nat.pow 2 (q.toNat + 53)
    let q := max (if fits estimate then estimate else estimate + 1) (-1074)
    min infinityBits ((q + 1074).toNat * 0x10000000000000 +
      roundDiv (n * Nat.pow 2 (-q).toNat) (d * Nat.pow 2 q.toNat))

def ofRatio (negative : Bool) (n d : Nat) : Number := ofAbsBits negative (nearestBits n d)

def ofNat (n : Nat) : Number := ofRatio false n 1

def ofInt (i : Int) : Number := ofRatio (i < 0) i.natAbs 1

/-! ## Comparison -/

/-- Numeric equality: NaN equals nothing, the two zeros are equal. -/
def equal (x y : Number) : Bool := !x.isNaN && !y.isNaN && (x.bits == y.bits || (x.isZero && y.isZero))

/-- Identity as a value: every NaN is the same, the two zeros are not. -/
def same (x y : Number) : Bool := (x.isNaN && y.isNaN) || x.bits == y.bits

/-! ## Integers -/

/-- The value as a natural number, if it is one; negative zero is zero. -/
def toNat? (x : Number) : Option Nat :=
  if x.isNaN || x.isInfinite then none
  else if x.isZero then some 0
  else if x.isNegative then none
  else if 0 ≤ x.scale then some (x.magnitude * Nat.pow 2 x.scale.toNat)
  else if x.magnitude % Nat.pow 2 (-x.scale).toNat = 0 then some (x.magnitude / Nat.pow 2 (-x.scale).toNat)
  else none

end Number

end EcmaObjects
