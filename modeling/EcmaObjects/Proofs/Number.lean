/-
  EcmaObjects.Proofs.Number — the value of a Number.

  `Number.value?` is the rational number that the bits of a finite Number stand for. The
  conversions between Numbers and natural numbers agree with it:
  - `toNat?_eq_some_iff`: a Number is read as a natural number if and only if that is its value.
  - `value?_ofNat`: a natural number of at most 53 binary digits is a Number without rounding.
  A positive value is that of one Number (`eq_of_value?_pos`), so what is read as such a natural
  number and written again is the same Number, but for the sign of zero (`ofNat_of_value?`).
-/

import EcmaObjects.Number
import Mathlib.Algebra.Field.Rat
import Mathlib.Algebra.GroupWithZero.Basic
import Mathlib.Algebra.Order.Field.Basic
import Mathlib.Algebra.Order.Ring.Rat
import Mathlib.Tactic.Linarith
import Mathlib.Tactic.NormNum
import Mathlib.Tactic.Positivity

namespace EcmaObjects

namespace Number

/-- The value of a Number. Infinities and NaNs have none. -/
def value? (x : Number) : Option ℚ :=
  if x.isNaN || x.isInfinite then none
  else some ((if x.isNegative then -1 else 1) * (x.magnitude * 2 ^ x.scale))

/-! ## Reading a natural number -/

theorem magnitude_eq_zero_iff (x : Number) : x.magnitude = 0 ↔ x.isZero = true := by
  have fields := Nat.div_add_mod x.absBits 0x10000000000000
  unfold magnitude isZero exponentField fraction
  rw [beq_iff_eq]
  split <;> omega

theorem mul_zpow_eq_natCast_iff (k m : ℕ) (q : ℤ) :
    (k : ℚ) * 2 ^ q = m ↔ k * 2 ^ q.toNat = m * 2 ^ (-q).toNat := by
  obtain ⟨n, rfl | rfl⟩ := Int.eq_nat_or_neg q
  · rw [zpow_natCast, Int.toNat_natCast, Int.toNat_neg_natCast, pow_zero, mul_one]
    exact_mod_cast Iff.rfl
  · rw [zpow_neg, zpow_natCast, neg_neg, Int.toNat_natCast, Int.toNat_neg_natCast, pow_zero, mul_one,
      ← div_eq_mul_inv, div_eq_iff (by positivity)]
    exact_mod_cast Iff.rfl

theorem exact_div_eq_some_iff {k d m : ℕ} (hd : 0 < d) :
    (if k % d = 0 then some (k / d) else none) = some m ↔ k = m * d := by
  split
  · rename_i divides
    rw [Option.some.injEq, Nat.div_eq_iff_eq_mul_left hd (Nat.dvd_of_mod_eq_zero divides)]
  · rename_i divides
    refine ⟨nofun, ?_⟩
    rintro rfl
    exact absurd (Nat.mul_mod_left m d) divides

theorem toNat?_eq_some_iff (x : Number) (m : ℕ) : x.toNat? = some m ↔ x.value? = some (m : ℚ) := by
  unfold toNat? value?
  by_cases infinite : (x.isNaN || x.isInfinite) = true
  · rw [if_pos infinite, if_pos infinite]
    exact ⟨nofun, nofun⟩
  rw [if_neg infinite, if_neg infinite, Option.some.injEq]
  by_cases zero : x.isZero = true
  · rw [if_pos zero, (magnitude_eq_zero_iff x).mpr zero, Nat.cast_zero, zero_mul, mul_zero, Option.some.injEq]
    exact_mod_cast Iff.rfl
  rw [if_neg zero]
  by_cases negative : x.isNegative = true
  · -- A negative value is no natural number, as it is not a zero.
    rw [if_pos negative, if_pos negative]
    refine ⟨nofun, fun h => ?_⟩
    have natural : (0 : ℚ) ≤ m := Nat.cast_nonneg m
    have magnitude_pos : (0 : ℚ) < x.magnitude := by
      exact_mod_cast Nat.pos_of_ne_zero fun h => zero ((magnitude_eq_zero_iff x).mp h)
    have pos : 0 < (x.magnitude : ℚ) * 2 ^ x.scale := mul_pos magnitude_pos (zpow_pos two_pos x.scale)
    linarith
  rw [if_neg negative, if_neg negative, one_mul, mul_zpow_eq_natCast_iff]
  by_cases up : 0 ≤ x.scale
  · rw [if_pos up, show (-x.scale).toNat = 0 by omega, pow_zero, mul_one, Option.some.injEq]
    rfl
  · rw [if_neg up, show x.scale.toNat = 0 by omega, pow_zero, mul_one]
    exact exact_div_eq_some_iff (Nat.two_pow_pos _)

/-! ## Writing a natural number -/

/-- A number of at most 53 binary digits, shifted to have exactly so many. -/
theorem shifted_bounds {n : ℕ} (pos : 0 < n) (h : n < 2 ^ 53) :
    n.log2 ≤ 52 ∧ 0x10000000000000 ≤ n * 2 ^ (52 - n.log2) ∧ n * 2 ^ (52 - n.log2) < 0x20000000000000 := by
  have low : 2 ^ n.log2 ≤ n := Nat.log2_self_le (Nat.pos_iff_ne_zero.mp pos)
  have high : n < 2 ^ (n.log2 + 1) := Nat.lt_log2_self
  have le : n.log2 ≤ 52 := by
    have lt : n.log2 < 53 := (Nat.pow_lt_pow_iff_right (by decide)).mp (Nat.lt_of_le_of_lt low h)
    omega
  have first : 2 ^ n.log2 * 2 ^ (52 - n.log2) = 0x10000000000000 := by rw [← Nat.pow_add, Nat.add_sub_cancel' le]
  have above : 2 ^ (n.log2 + 1) * 2 ^ (52 - n.log2) = 0x20000000000000 := by
    rw [← Nat.pow_add, Nat.add_right_comm, Nat.add_sub_cancel' le]
  refine ⟨le, ?_, ?_⟩
  · rw [← first]
    exact Nat.mul_le_mul_right _ low
  · rw [← above]
    exact Nat.mul_lt_mul_of_pos_right high (Nat.two_pow_pos _)

theorem roundDiv_one (n : ℕ) : roundDiv n 1 = n := by simp [roundDiv, Nat.mod_one]

/-- Nothing is rounded: the bits are those of the exponent and of the shifted number. -/
theorem nearestBits_one {n : ℕ} (pos : 0 < n) (h : n < 2 ^ 53) :
    nearestBits n 1 = (n.log2 + 1022) * 0x10000000000000 + n * 2 ^ (52 - n.log2) := by
  obtain ⟨le, low, high⟩ := shifted_bounds pos h
  have log_one : Nat.log2 1 = 0 := by decide
  have unfit : ¬ n * 2 ^ (53 - n.log2) < 2 ^ 53 := by
    rw [show 53 - n.log2 = 52 - n.log2 + 1 by omega, Nat.pow_succ, ← Nat.mul_assoc]
    omega
  have scale : max ((n.log2 : ℤ) - 53 + 1) (-1074) = (n.log2 : ℤ) - 52 := by omega
  -- The estimate of the scale is one too small: what it would shift by does not fit.
  have estimate_up : (-((n.log2 : ℤ) - 53)).toNat = 53 - n.log2 := by omega
  have estimate_down : ((n.log2 : ℤ) - 53).toNat = 0 := by omega
  have up : (-((n.log2 : ℤ) - 52)).toNat = 52 - n.log2 := by omega
  have down : ((n.log2 : ℤ) - 52).toNat = 0 := by omega
  have field : ((n.log2 : ℤ) - 52 + 1074).toNat = n.log2 + 1022 := by omega
  unfold nearestBits
  simp only [Nat.pos_iff_ne_zero.mp pos, if_false, log_one, Nat.cast_zero, sub_zero, estimate_up, estimate_down, Nat.pow_eq,
    zero_add, one_mul, unfit, decide_false, Bool.false_eq_true, scale, up, down, field, pow_zero, roundDiv_one]
  exact Nat.min_eq_right (by unfold infinityBits; omega)

theorem absBits_ofAbsBits {bits : ℕ} (h : bits < 0x8000000000000000) :
    (ofAbsBits false bits).absBits = bits ∧ (ofAbsBits false bits).isNegative = false := by
  have small : ((0 + bits).toUInt64).toNat = bits := by
    rw [Nat.zero_add, Nat.toUInt64_eq, UInt64.toNat_ofNat', Nat.mod_eq_of_lt (by omega)]
  unfold absBits isNegative ofAbsBits
  simp only [Bool.false_eq_true, if_false, small, UInt64.le_iff_toNat_le, decide_eq_false_iff_not]
  exact ⟨Nat.mod_eq_of_lt h, Nat.not_le.mpr h⟩

theorem value?_ofNat {n : ℕ} (h : n < 2 ^ 53) : (ofNat n).value? = some (n : ℚ) := by
  rcases Nat.eq_zero_or_pos n with rfl | pos
  · exact (toNat?_eq_some_iff _ 0).mp (by decide)
  obtain ⟨le, low, high⟩ := shifted_bounds pos h
  have bits := nearestBits_one pos h
  obtain ⟨abs, negative⟩ : (ofNat n).absBits = nearestBits n 1 ∧ (ofNat n).isNegative = false :=
    absBits_ofAbsBits (by omega)
  have finite : ((ofNat n).isNaN || (ofNat n).isInfinite) = false := by
    rw [isNaN, isInfinite, abs, Bool.or_eq_false_iff, decide_eq_false_iff_not, beq_eq_false_iff_ne, infinityBits]
    omega
  have exponent : (ofNat n).exponentField = n.log2 + 1023 := by
    rw [exponentField, abs]
    omega
  have magnitude : (ofNat n).magnitude = n * 2 ^ (52 - n.log2) := by
    rw [magnitude, if_neg (by omega), fraction, abs]
    omega
  have scale : (ofNat n).scale = (n.log2 : ℤ) - 52 := by
    rw [scale, exponent]
    omega
  have value : ((n * 2 ^ (52 - n.log2) : ℕ) : ℚ) * 2 ^ ((n.log2 : ℤ) - 52) = n := by
    rw [mul_zpow_eq_natCast_iff, show ((n.log2 : ℤ) - 52).toNat = 0 by omega,
      show (-((n.log2 : ℤ) - 52)).toNat = 52 - n.log2 by omega, pow_zero, mul_one]
  rw [value?, finite, negative, magnitude, scale, value]
  simp

/-! ## One Number for each value -/

theorem magnitude_lt (x : Number) : x.magnitude < 0x20000000000000 := by
  unfold magnitude fraction
  split <;> omega

/-- A scale above the least one has the first bit set. -/
theorem le_magnitude {x : Number} (h : -1074 < x.scale) : 0x10000000000000 ≤ x.magnitude := by
  have field : x.exponentField ≠ 0 := by
    unfold scale at h
    omega
  rw [magnitude, if_neg field]
  exact Nat.le_add_right _ _

theorem le_scale (x : Number) : -1074 ≤ x.scale := by
  unfold scale
  omega

theorem absBits_eq {x y : Number} (hs : x.scale = y.scale) (hm : x.magnitude = y.magnitude) : x.absBits = y.absBits := by
  unfold scale exponentField at hs
  unfold magnitude exponentField fraction at hm
  split at hm <;> split at hm <;> omega

theorem eq_of_absBits {x y : Number} (h : x.absBits = y.absBits) (hn : x.isNegative = y.isNegative) : x = y := by
  have sign : (0x8000000000000000 ≤ x.bits.toNat) ↔ 0x8000000000000000 ≤ y.bits.toNat := by
    simpa [isNegative, UInt64.le_iff_toNat_le] using hn
  have high : x.bits.toNat < 2 ^ 64 := x.bits.toNat_lt
  have high' : y.bits.toNat < 2 ^ 64 := y.bits.toNat_lt
  have same : x.bits.toNat = y.bits.toNat := by
    unfold absBits at h
    omega
  cases x
  cases y
  exact congrArg Number.mk (UInt64.toNat_inj.mp same)

/-- Of one value the scale is the least that leaves room for the magnitude, so it is not lower for the one than for the other. -/
theorem scale_le_of_value_eq {x y : Number} (h : (x.magnitude : ℚ) * 2 ^ x.scale = y.magnitude * 2 ^ y.scale) :
    y.scale ≤ x.scale := by
  by_contra lower
  rw [not_le] at lower
  obtain ⟨n, hn⟩ : ∃ n : ℕ, y.scale = x.scale + (n + 1 : ℕ) := ⟨(y.scale - x.scale - 1).toNat, by omega⟩
  have least := le_scale x
  have large : 0x10000000000000 ≤ y.magnitude := le_magnitude (by omega)
  have shifted : x.magnitude = y.magnitude * 2 ^ (n + 1) := by
    have unit : (2 : ℚ) ^ x.scale ≠ 0 := (zpow_pos two_pos _).ne'
    rw [hn, zpow_add₀ two_ne_zero, zpow_natCast, mul_left_comm, mul_comm] at h
    exact_mod_cast mul_left_cancel₀ unit h
  have small := magnitude_lt x
  have factor : 2 ≤ 2 ^ (n + 1) := Nat.le_self_pow n.succ_ne_zero 2
  have product : 0x10000000000000 * 2 ≤ y.magnitude * 2 ^ (n + 1) := Nat.mul_le_mul large factor
  omega

/-- What is positive is the value of one Number at most. -/
theorem eq_of_value?_pos {x y : Number} {q : ℚ} (pos : 0 < q) (hx : x.value? = some q) (hy : y.value? = some q) :
    x = y := by
  have positive {z : Number} (hz : z.value? = some q) : z.isNegative = false ∧ (z.magnitude : ℚ) * 2 ^ z.scale = q := by
    have nonneg : 0 ≤ (z.magnitude : ℚ) * 2 ^ z.scale := mul_nonneg (Nat.cast_nonneg _) (zpow_pos two_pos _).le
    unfold value? at hz
    split at hz
    · cases hz
    cases negative : z.isNegative with
    | true =>
      simp only [negative, if_true, Option.some.injEq] at hz
      linarith
    | false =>
      simp only [negative, Bool.false_eq_true, if_false, one_mul, Option.some.injEq] at hz
      exact ⟨rfl, hz⟩
  obtain ⟨signX, valueX⟩ := positive hx
  obtain ⟨signY, valueY⟩ := positive hy
  have scale : x.scale = y.scale :=
    le_antisymm (scale_le_of_value_eq (valueY.trans valueX.symm)) (scale_le_of_value_eq (valueX.trans valueY.symm))
  have magnitude : x.magnitude = y.magnitude := by
    have same := valueX.trans valueY.symm
    rw [scale] at same
    exact_mod_cast mul_right_cancel₀ (zpow_pos two_pos _).ne' same
  exact eq_of_absBits (absBits_eq scale magnitude) (signX.trans signY.symm)

theorem isZero_iff_of_value? {x : Number} {q : ℚ} (h : x.value? = some q) : x.isZero = true ↔ q = 0 := by
  unfold value? at h
  split at h
  · cases h
  have unit : (2 : ℚ) ^ x.scale ≠ 0 := (zpow_pos two_pos _).ne'
  rw [← Option.some.inj h, ← magnitude_eq_zero_iff]
  split <;> simp [unit]

/-- A natural number is written as the Number that it was read from, but as +0 if that was -0. -/
theorem ofNat_of_value? {x : Number} {n : ℕ} (hx : x.value? = some (n : ℚ)) (h : n < 2 ^ 53) :
    ofNat n = if x.isZero then zero else x := by
  have isZero := isZero_iff_of_value? hx
  rw [Nat.cast_eq_zero] at isZero
  by_cases e : n = 0
  · rw [if_pos (isZero.mpr e), e]
    rfl
  · rw [if_neg (mt isZero.mp e)]
    have pos : (0 : ℚ) < n := by exact_mod_cast Nat.pos_of_ne_zero e
    exact eq_of_value?_pos pos (value?_ofNat h) hx

end Number

end EcmaObjects
