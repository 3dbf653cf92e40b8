/-
  EcmaObjects.Proofs.Text — code units and Unicode text, there and back.

  Every character has one spelling in units, and reading it gives the character back
  (`scalars_unitsOf_append`), so Unicode text comes through unchanged (`lossy_ofString`).
  The other way a text comes through mended: with U+FFFD for each surrogate that has no
  partner (`ofString_lossy`). So two texts are written alike exactly if they are alike when
  mended (`lossy_inj`), and a text is its own mended form exactly if it is well formed
  (`mended_eq_self_iff`).
-/

import EcmaObjects.Text

namespace EcmaObjects.Text

/-! ## One character -/

theorem isLeading_iff (u : UInt16) : isLeading u = true ↔ 0xD800 ≤ u.toNat ∧ u.toNat < 0xDC00 := by
  simp [isLeading, UInt16.le_iff_toNat_le, UInt16.lt_iff_toNat_lt]

theorem isTrailing_iff (u : UInt16) : isTrailing u = true ↔ 0xDC00 ≤ u.toNat ∧ u.toNat < 0xE000 := by
  simp [isTrailing, UInt16.le_iff_toNat_le, UInt16.lt_iff_toNat_lt]

theorem isSurrogate_iff (u : UInt16) : (isLeading u || isTrailing u) = true ↔ 0xD800 ≤ u.toNat ∧ u.toNat < 0xE000 := by
  rw [Bool.or_eq_true, isLeading_iff, isTrailing_iff]
  omega

theorem toNat_ofNat_of_valid {n : Nat} (h : n < 0xD800 ∨ (0xDFFF < n ∧ n < 0x110000)) : (Char.ofNat n).toNat = n := by
  have valid : n.isValidChar := h
  rw [Char.ofNat, dif_pos valid]
  rfl

theorem toNat_cases (c : Char) : c.toNat < 0xD800 ∨ (0xDFFF < c.toNat ∧ c.toNat < 0x110000) := c.valid

theorem unitsOf_single {u : UInt16} {c : Char} (h : single u = some c) : unitsOf c = [u] := by
  unfold single at h
  split at h
  · cases h
  · rename_i hs
    rw [isSurrogate_iff] at hs
    have hlt := u.toNat_lt
    have hn : (Char.ofNat u.toNat).toNat = u.toNat := toNat_ofNat_of_valid (by omega)
    cases h
    rw [unitsOf, hn, if_pos (by omega), Nat.toUInt16, UInt16.ofNat_toNat]

theorem unitsOf_paired {u v : UInt16} (hu : isLeading u = true) (hv : isTrailing v = true) :
    unitsOf (paired u v) = [u, v] := by
  rw [isLeading_iff] at hu
  rw [isTrailing_iff] at hv
  have hn : (paired u v).toNat = 0x10000 + (u.toNat - 0xD800) * 0x400 + (v.toNat - 0xDC00) :=
    toNat_ofNat_of_valid (by omega)
  have lead : (0xD800 + ((paired u v).toNat - 0x10000) / 0x400).toUInt16 = u := by
    have h : 0xD800 + ((paired u v).toNat - 0x10000) / 0x400 = u.toNat := by omega
    rw [h, Nat.toUInt16, UInt16.ofNat_toNat]
  have trail : (0xDC00 + ((paired u v).toNat - 0x10000) % 0x400).toUInt16 = v := by
    have h : 0xDC00 + ((paired u v).toNat - 0x10000) % 0x400 = v.toNat := by omega
    rw [h, Nat.toUInt16, UInt16.ofNat_toNat]
  rw [unitsOf, if_neg (by omega)]
  exact congr (congrArg List.cons lead) (congrArg (fun x => [x]) trail)

/-- A character's units read back as the character, whatever follows. -/
theorem scalars_unitsOf_append (c : Char) (rest : List UInt16) : scalars (unitsOf c ++ rest) = some c :: scalars rest := by
  have hc := toNat_cases c
  by_cases hb : c.toNat < 0x10000
  · have hu : c.toNat.toUInt16.toNat = c.toNat := by
      rw [Nat.toUInt16, UInt16.toNat_ofNat']
      omega
    have hs : single c.toNat.toUInt16 = some c := by
      rw [single, if_neg (by rw [isSurrogate_iff, hu]; omega), hu, Char.ofNat_toNat]
    have hl : isLeading c.toNat.toUInt16 = false := by
      rw [← Bool.not_eq_true, isLeading_iff, hu]
      omega
    rw [unitsOf, if_pos hb, List.singleton_append]
    cases rest with
    | nil =>
      show [single _] = _
      rw [hs]
      rfl
    | cons v rest => rw [scalars, hl, hs]; rfl
  · have hu : (0xD800 + (c.toNat - 0x10000) / 0x400).toUInt16.toNat = 0xD800 + (c.toNat - 0x10000) / 0x400 := by
      rw [Nat.toUInt16, UInt16.toNat_ofNat']
      omega
    have hv : (0xDC00 + (c.toNat - 0x10000) % 0x400).toUInt16.toNat = 0xDC00 + (c.toNat - 0x10000) % 0x400 := by
      rw [Nat.toUInt16, UInt16.toNat_ofNat']
      omega
    have hl := (isLeading_iff (0xD800 + (c.toNat - 0x10000) / 0x400).toUInt16).mpr (by omega)
    have ht := (isTrailing_iff (0xDC00 + (c.toNat - 0x10000) % 0x400).toUInt16).mpr (by omega)
    have hp : paired (0xD800 + (c.toNat - 0x10000) / 0x400).toUInt16 (0xDC00 + (c.toNat - 0x10000) % 0x400).toUInt16 = c := by
      have hn : 0x10000 + (0xD800 + (c.toNat - 0x10000) / 0x400 - 0xD800) * 0x400 +
          (0xDC00 + (c.toNat - 0x10000) % 0x400 - 0xDC00) = c.toNat := by omega
      rw [paired, hu, hv, hn, Char.ofNat_toNat]
    rw [unitsOf, if_neg hb]
    show scalars (_ :: _ :: rest) = _
    rw [scalars, hl, ht, hp]
    rfl

/-! ## Unicode text -/

theorem scalars_flatMap_unitsOf (cs : List Char) : scalars (cs.flatMap unitsOf) = cs.map some := by
  induction cs with
  | nil => rfl
  | cons c cs ih => rw [List.flatMap_cons, scalars_unitsOf_append, ih, List.map_cons]

theorem lossy_ofString (s : String) : (ofString s).lossy = s := by
  rw [lossy, ofString, scalars_flatMap_unitsOf, List.map_map]
  show String.ofList (s.toList.map id) = s
  rw [List.map_id, String.ofList_toList]

theorem ofString_injective {s t : String} (h : ofString s = ofString t) : s = t := by
  rw [← lossy_ofString s, h, lossy_ofString]

/-! ## Mended texts -/

/-- A surrogate becomes U+FFFD, every other unit stays. -/
def mend (u : UInt16) : UInt16 := if isLeading u || isTrailing u then 0xFFFD else u

/-- U+FFFD for every surrogate without its partner. -/
def mendedUnits : List UInt16 → List UInt16
  | [] => []
  | [u] => [mend u]
  | u :: v :: rest =>
    if isLeading u && isTrailing v then u :: v :: mendedUnits rest else mend u :: mendedUnits (v :: rest)

def mended (t : Text) : Text := ⟨mendedUnits t.units⟩

theorem unitsOf_single_getD (u : UInt16) : unitsOf ((single u).getD '\uFFFD') = [mend u] := by
  cases h : single u with
  | some c =>
    rw [Option.getD_some, unitsOf_single h, mend, if_neg]
    intro hs
    rw [single, if_pos hs] at h
    cases h
  | none =>
    rw [mend, if_pos]
    · decide
    · by_cases hs : (isLeading u || isTrailing u) = true
      · exact hs
      · rw [single, if_neg hs] at h
        cases h

theorem flatMap_unitsOf_scalars (us : List UInt16) :
    ((scalars us).map (·.getD '\uFFFD')).flatMap unitsOf = mendedUnits us := by
  induction us using scalars.induct with
  | case1 => rfl
  | case2 u => simp [scalars, mendedUnits, unitsOf_single_getD]
  | case3 u v rest h ih =>
    rw [scalars, if_pos h, mendedUnits, if_pos h, List.map_cons, List.flatMap_cons, ih]
    rw [Bool.and_eq_true] at h
    rw [Option.getD_some, unitsOf_paired h.1 h.2]
    rfl
  | case4 u v rest h ih =>
    rw [scalars, if_neg h, mendedUnits, if_neg h, List.map_cons, List.flatMap_cons, ih, unitsOf_single_getD]
    rfl

/-- What is written as Unicode text and read again comes back mended. -/
theorem ofString_lossy (t : Text) : ofString t.lossy = t.mended := by
  rw [ofString, lossy, String.toList_ofList, flatMap_unitsOf_scalars, mended]

/-- Two texts are written alike exactly if they are alike when mended. -/
theorem lossy_inj {t u : Text} : t.lossy = u.lossy ↔ t.mended = u.mended := by
  constructor
  · intro h
    rw [← ofString_lossy, h, ofString_lossy]
  · intro h
    rw [← ofString_lossy, ← ofString_lossy] at h
    exact ofString_injective h

/-! ## Well-formed texts -/

theorem mend_eq_self_iff (u : UInt16) : mend u = u ↔ single u ≠ none := by
  unfold mend single
  split
  · rename_i hs
    rw [isSurrogate_iff] at hs
    have hne : (0xFFFD : UInt16) ≠ u := by
      rintro rfl
      exact absurd hs (by decide)
    simp [hne]
  · simp

theorem mendedUnits_eq_self_iff (us : List UInt16) : mendedUnits us = us ↔ none ∉ scalars us := by
  induction us using scalars.induct with
  | case1 => simp [mendedUnits, scalars]
  | case2 u =>
    rw [mendedUnits, scalars, List.cons.injEq, mend_eq_self_iff, List.mem_singleton, ne_comm]
    simp
  | case3 u v rest h ih =>
    rw [mendedUnits, if_pos h, scalars, if_pos h]
    simp [ih]
  | case4 u v rest h ih =>
    rw [mendedUnits, if_neg h, scalars, if_neg h, List.cons.injEq, mend_eq_self_iff, ih, List.mem_cons, not_or, ne_comm]

theorem mapM_id_eq_none_iff {α : Type} (l : List (Option α)) : l.mapM id = none ↔ none ∈ l := by
  induction l with
  | nil => simp
  | cons o l ih =>
    cases o with
    | none => simp [List.mapM_cons]
    | some a =>
      rw [List.mapM_cons, List.mem_cons, ← ih]
      cases l.mapM id <;> simp

/-- A text is its own mended form exactly if it is well formed. -/
theorem mended_eq_self_iff (t : Text) : t.mended = t ↔ t.toString? ≠ none := by
  obtain ⟨us⟩ := t
  rw [mended, mk.injEq, mendedUnits_eq_self_iff, toString?, ne_eq, Option.map_eq_none_iff, mapM_id_eq_none_iff]

end EcmaObjects.Text
