/-
  EcmaObjects.Proofs.Falsy — which values count as true.

  By the standard the falsy values are undefined, null, false, the zeros, NaN, the empty
  string and the BigInt zero (`Value.Falsy`); a Number is told by the quantity that it
  stands for, or by its bits if it stands for none. `Value.toBoolean` takes all others for
  true, and of these the BigInt zero too (`Value.CountsAsTrue`, `Value.toBoolean_iff`).
-/

import EcmaObjects.Proofs.Number
import EcmaObjects.Value

namespace EcmaObjects

/-! ## Numbers -/

namespace Number

theorem isNaN_iff (x : Number) : x.isNaN = true ↔ x.exponentField = 0x7FF ∧ x.fraction ≠ 0 := by
  unfold isNaN infinityBits exponentField fraction absBits
  rw [decide_eq_true_iff]
  omega

theorem isZero_iff (x : Number) : x.isZero = true ↔ x.value? = some 0 := by
  constructor
  · intro zero
    have natural : x.toNat? = some 0 := by
      have finite : (x.isNaN || x.isInfinite) = false := by
        unfold isZero at zero
        rw [beq_iff_eq] at zero
        unfold isNaN isInfinite
        rw [zero]
        rfl
      rw [toNat?, finite, zero]
      rfl
    exact_mod_cast (toNat?_eq_some_iff x 0).mp natural
  · intro zero
    exact (isZero_iff_of_value? zero).mpr rfl

end Number

/-! ## Values -/

namespace Value

/-- The values that the standard's ToBoolean takes for false. -/
inductive Falsy : Value → Prop
  | undefined : Falsy .undefined
  | null : Falsy .null
  | false : Falsy (.boolean false)
  | zero {x : Number} : x.value? = some 0 → Falsy (.number x)
  | nan {x : Number} : x.exponentField = 0x7FF → x.fraction ≠ 0 → Falsy (.number x)
  | bigIntZero : Falsy (.bigInt 0)
  | emptyString : Falsy (.string ⟨[]⟩)

/-- A value is taken for true unless it is falsy; the BigInt zero is taken for true all the same. -/
def CountsAsTrue (v : Value) : Prop := ¬ v.Falsy ∨ v = .bigInt 0

theorem falsy_number_iff (x : Number) : (Value.number x).Falsy ↔ (Value.number x).toBoolean = false := by
  have coerced : (Value.number x).toBoolean = false ↔ x.isZero = true ∨ x.isNaN = true := by
    cases hz : x.isZero <;> cases hn : x.isNaN <;> simp [toBoolean, hz, hn]
  rw [coerced, x.isZero_iff, x.isNaN_iff]
  constructor
  · intro falsy
    cases falsy with
    | zero h => exact Or.inl h
    | nan h h' => exact Or.inr ⟨h, h'⟩
  · intro coerces
    rcases coerces with h | ⟨h, h'⟩
    · exact .zero h
    · exact .nan h h'

theorem falsy_iff (v : Value) : v.Falsy ↔ v.toBoolean = false ∨ v = .bigInt 0 := by
  cases v with
  | undefined => exact ⟨fun _ => Or.inl rfl, fun _ => .undefined⟩
  | null => exact ⟨fun _ => Or.inl rfl, fun _ => .null⟩
  | boolean b =>
    cases b with
    | false => exact ⟨fun _ => Or.inl rfl, fun _ => .false⟩
    | true => exact ⟨nofun, fun h => h.elim nofun nofun⟩
  | number x =>
    rw [falsy_number_iff]
    exact ⟨Or.inl, fun h => h.resolve_right nofun⟩
  | string t =>
    obtain ⟨units⟩ := t
    cases units with
    | nil => exact ⟨fun _ => Or.inl rfl, fun _ => .emptyString⟩
    | cons u rest => exact ⟨nofun, fun h => h.elim nofun nofun⟩
  | symbol s => exact ⟨nofun, fun h => h.elim nofun nofun⟩
  | bigInt i =>
    constructor
    · intro falsy
      cases falsy
      exact Or.inr rfl
    · intro coerces
      rcases coerces with h | h
      · cases h
      · cases h
        exact .bigIntZero
  | object o => exact ⟨nofun, fun h => h.elim nofun nofun⟩

theorem toBoolean_iff (v : Value) : v.toBoolean = true ↔ v.CountsAsTrue := by
  unfold CountsAsTrue
  rw [falsy_iff]
  by_cases zero : v = .bigInt 0
  · rw [zero]
    exact ⟨fun _ => Or.inr rfl, fun _ => rfl⟩
  · simp [zero]

end Value

end EcmaObjects
