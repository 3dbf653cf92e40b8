/-
  EcmaObjects.Decimal.Shortest — the fewest decimal digits that read back.

  The reals that round to a finite Number form an interval, its ends included exactly
  when the magnitude is even (`readsBack`). On the grid of multiples of a power of ten
  the value has two neighbours; `shortest` goes through the grids from coarse to fine
  and takes the first with a neighbour in the interval, of two the nearer, and of two
  equally near the even one. All comparisons are exact.
-/

import EcmaObjects.Number

namespace EcmaObjects

/-- The value `digits · 10^exponent`. -/
structure Decimal where
  digits : Nat
  exponent : Int
  deriving DecidableEq, Repr

namespace Decimal

/-- Compare `a · 10^i` with `b · 2^j`. -/
def compareScaled (a : Nat) (i : Int) (b : Nat) (j : Int) : Ordering :=
  compare (a * Nat.pow 10 i.toNat * Nat.pow 2 (-j).toNat) (b * Nat.pow 2 j.toNat * Nat.pow 10 (-i).toNat)

/-- A power of two, the smallest one apart, is half as far from its lower neighbour as from its upper. -/
def isNarrowBelow (x : Number) : Bool := x.fraction == 0 && 1 < x.exponentField

/-- Does the decimal, as an exact value, round to `x`? -/
def readsBack (x : Number) (d : Decimal) : Bool :=
  let low := if isNarrowBelow x then 4 * x.magnitude - 1 else 4 * x.magnitude - 2
  let closed := x.magnitude % 2 == 0
  let atLow := compareScaled d.digits d.exponent low (x.scale - 2)
  let atHigh := compareScaled d.digits d.exponent (4 * x.magnitude + 2) (x.scale - 2)
  (atLow == .gt || (closed && atLow == .eq)) && (atHigh == .lt || (closed && atHigh == .eq))

/-- The neighbour below of `x` on the grid `10^e`. -/
def floorOn (x : Number) (e : Int) : Nat :=
  (x.magnitude * Nat.pow 2 x.scale.toNat * Nat.pow 10 (-e).toNat) / (Nat.pow 10 e.toNat * Nat.pow 2 (-x.scale).toNat)

/-- The neighbour of `x` on the grid `10^e` that reads back, the nearer if both do. -/
def onGrid? (x : Number) (e : Int) : Option Decimal :=
  let below : Decimal := ⟨floorOn x e, e⟩
  let above : Decimal := ⟨floorOn x e + 1, e⟩
  match readsBack x below, readsBack x above with
  | false, false => none
  | true, false => some below
  | false, true => some above
  | true, true =>
    match compareScaled (below.digits + above.digits) e (2 * x.magnitude) x.scale with
    | .gt => some below
    | .lt => some above
    | .eq => some (if below.digits % 2 = 0 then below else above)

/-- The first grid that holds a decimal for `x`, going down from `10^e`. -/
def firstOnGrids? (x : Number) : Nat → Int → Option Decimal
  | 0, _ => none
  | n + 1, e => onGrid? x e <|> firstOnGrids? x n (e - 1)

/-- A power of ten of which `x` is less than half: `log₁₀ 2` is about 0.30103. -/
def gridAbove (x : Number) : Int := ((Nat.log2 x.magnitude : Int) + 1 + x.scale) * 30103 / 100000 + 2

/-- The decimal of fewest digits that reads back as `x`, for a finite `x` other than zero.
    Every Number lies on the grid `10^(-1074)`, so the search ends with an answer. -/
def shortest (x : Number) : Decimal := (firstOnGrids? x 1400 (gridAbove x)).getD ⟨0, 0⟩

end Decimal

end EcmaObjects
