/-
  EcmaObjects.Proofs.Surrogates — which strings a conversion to a string keeps as they are.

  A surrogate is unpaired if the unit next to it is not its partner (`Text.unpaired`): that
  is seen from its neighbours alone, and mending replaces just these units
  (`Text.getElem?_mended`). So a text is its own mended form exactly if it has none
  (`Text.mended_eq_self_iff_paired`).
  A string that is converted to a string comes out mended (`text_law`): it is kept exactly if
  all of its surrogates are in pairs, and else it is not (`a_lone_surrogate_is_replaced`).
-/

import EcmaObjects.Proofs.Primitive
import EcmaObjects.Proofs.Text

namespace EcmaObjects

variable {σ : Type}

namespace Text

/-! ## Unpaired surrogates -/

def leadsAt (us : List UInt16) (i : Nat) : Bool := us[i]?.any isLeading

def trailsAt (us : List UInt16) (i : Nat) : Bool := us[i]?.any isTrailing

/-- A leading surrogate with no trailing one after it, or a trailing one with no leading one before it. -/
def unpairedAt (us : List UInt16) : Nat → Bool
  | 0 => leadsAt us 0 && !trailsAt us 1 || trailsAt us 0
  | i + 1 => leadsAt us (i + 1) && !trailsAt us (i + 2) || trailsAt us (i + 1) && !leadsAt us i

def unpaired (t : Text) (i : Nat) : Bool := unpairedAt t.units i

theorem not_trailing_of_leading {u : UInt16} (h : isLeading u = true) : isTrailing u = false := by
  rw [isLeading_iff] at h
  rw [Bool.eq_false_iff, ne_eq, isTrailing_iff]
  omega

theorem not_leading_of_trailing {u : UInt16} (h : isTrailing u = true) : isLeading u = false := by
  rw [isTrailing_iff] at h
  rw [Bool.eq_false_iff, ne_eq, isLeading_iff]
  omega

theorem isSurrogate_of_unpairedAt {us : List UInt16} {i : Nat} (h : unpairedAt us i = true) :
    ∃ u, us[i]? = some u ∧ (isLeading u || isTrailing u) = true := by
  have surrogate : leadsAt us i = true ∨ trailsAt us i = true := by
    cases i with
    | zero =>
      rw [unpairedAt, Bool.or_eq_true, Bool.and_eq_true] at h
      exact h.imp_left And.left
    | succ i =>
      rw [unpairedAt, Bool.or_eq_true, Bool.and_eq_true, Bool.and_eq_true] at h
      exact h.imp And.left And.left
  cases hu : us[i]? with
  | none => simp [leadsAt, trailsAt, hu] at surrogate
  | some u => exact ⟨u, rfl, by simpa [leadsAt, trailsAt, hu] using surrogate⟩

/-! ### One unit more in front -/

/-- Of a unit in front only its neighbour can be the partner. -/
theorem unpairedAt_cons_succ {u v : UInt16} {rest : List UInt16} (h : (isLeading u && isTrailing v) = false) (i : Nat) :
    unpairedAt (u :: v :: rest) (i + 1) = unpairedAt (v :: rest) i := by
  cases i with
  | zero =>
    cases hv : isTrailing v with
    | false => simp [unpairedAt, leadsAt, trailsAt, hv]
    | true =>
      rw [hv, Bool.and_true] at h
      simp [unpairedAt, leadsAt, trailsAt, hv, h]
  | succ i => simp [unpairedAt, leadsAt, trailsAt]

theorem unpairedAt_zero_cons {u v : UInt16} {rest : List UInt16} (h : (isLeading u && isTrailing v) = false) :
    unpairedAt (u :: v :: rest) 0 = (isLeading u || isTrailing u) := by
  cases hu : isLeading u with
  | false => simp [unpairedAt, leadsAt, trailsAt, hu]
  | true =>
    rw [hu, Bool.true_and] at h
    simp [unpairedAt, leadsAt, trailsAt, hu, h]

/-- A pair in front has no part in the rest. -/
theorem unpairedAt_pair {u v : UInt16} {rest : List UInt16} (hv : isTrailing v = true) (i : Nat) :
    unpairedAt (u :: v :: rest) (i + 2) = unpairedAt rest i := by
  cases i with
  | zero => simp [unpairedAt, leadsAt, trailsAt, not_leading_of_trailing hv]
  | succ i => simp [unpairedAt, leadsAt, trailsAt]

/-! ## What mending replaces -/

theorem getElem?_mendedUnits (us : List UInt16) (i : Nat) :
    (mendedUnits us)[i]? = us[i]?.map fun u => if unpairedAt us i then 0xFFFD else u := by
  induction us using scalars.induct generalizing i with
  | case1 => rfl
  | case2 u =>
    cases i with
    | zero => simp [mendedUnits, mend, unpairedAt, leadsAt, trailsAt]
    | succ i => rfl
  | case3 u v rest h ih =>
    rw [mendedUnits, if_pos h]
    rw [Bool.and_eq_true] at h
    rcases i with _ | _ | i
    · simp [unpairedAt, leadsAt, trailsAt, h.1, h.2, not_trailing_of_leading h.1]
    · simp [unpairedAt, leadsAt, trailsAt, h.1, h.2, not_leading_of_trailing h.2]
    · rw [unpairedAt_pair h.2]
      exact ih i
  | case4 u v rest h ih =>
    rw [mendedUnits, if_neg h]
    rw [Bool.not_eq_true] at h
    cases i with
    | zero => simp [mend, unpairedAt_zero_cons h]
    | succ i =>
      rw [unpairedAt_cons_succ h]
      exact ih i

/-- Mending replaces the unpaired surrogates and nothing else. -/
theorem getElem?_mended (t : Text) (i : Nat) :
    t.mended.units[i]? = t.units[i]?.map fun u => if t.unpaired i then 0xFFFD else u :=
  getElem?_mendedUnits t.units i

theorem mended_eq_self_iff_paired (t : Text) : t.mended = t ↔ ∀ i, t.unpaired i = false := by
  constructor
  · intro h i
    rw [Bool.eq_false_iff]
    intro alone
    obtain ⟨u, hu, surrogate⟩ := isSurrogate_of_unpairedAt alone
    have replaced := t.getElem?_mended i
    rw [h, hu, Option.map_some, if_pos alone] at replaced
    cases replaced
    exact absurd surrogate (by decide)
  · intro h
    have same : t.mended.units = t.units := by
      apply List.ext_getElem?
      intro i
      rw [getElem?_mended, h]
      simp
    obtain ⟨us⟩ := t
    exact congrArg mk same

end Text

namespace Act

/-! ## The law of strings -/

/-- What converting `v` to a string gives if it is the string `t` as a primitive. -/
structure TextLaw (v : Value) (t : Text) (env : Env σ) (w w' : World σ) : Prop where
  mended : toText v env w = .ok t.mended w'
  replaced (i : Nat) : t.mended.units[i]? = t.units[i]?.map fun u => if t.unpaired i then 0xFFFD else u
  itself_iff : toText v env w = .ok t w' ↔ ∀ i, t.unpaired i = false

theorem textLaw_of_toPrimitive {v : Value} {t : Text} {env : Env σ} {w w' : World σ}
    (h : toPrimitive v .string env w = .ok (.string t) w') : TextLaw v t env w w' := by
  have mended : toText v env w = .ok t.mended w' := by
    rw [toText_of_toPrimitive h, ← Text.ofString_lossy]
    rfl
  refine ⟨mended, t.getElem?_mended, ?_⟩
  rw [mended, Result.ok.injEq, ← t.mended_eq_self_iff_paired]
  exact and_iff_left rfl

/-- Every string that a conversion to a string meets, as what is converted or as its primitive,
    comes out with U+FFFD for its unpaired surrogates. -/
theorem text_law (env : Env σ) (w : World σ) :
    (∀ t, TextLaw (.string t) t env w w) ∧
      ∀ v t w', toPrimitive v .string env w = .ok (.string t) w' → TextLaw v t env w w' :=
  ⟨fun _ => textLaw_of_toPrimitive rfl, fun _ _ _ => textLaw_of_toPrimitive⟩

/-- A method gives a string of one surrogate pair, which comes through. -/
theorem a_pair_of_surrogates_is_kept :
    let pair : Text := ⟨[0xD83D, 0xDE00]⟩
    let env : Env Unit := .ofHost (fun _ _ _ => return .string pair) ⟨8⟩ ⟨64, 64⟩
    let smile : Object := .ofFunction ⟨"smile", 0, .host 0⟩
    let w : World Unit :=
      ⟨{ store := (Realm.store.add smile).add { properties := ⟨[("toString", .plain (.object ⟨25⟩))]⟩ } }, ()⟩
    toPrimitive (.object ⟨26⟩) .string env w = .ok (.string pair) w ∧ toText (.object ⟨26⟩) env w = .ok pair w := by
  intro pair env smile w
  have primitive : toPrimitive (.object ⟨26⟩) .string env w = .ok (.string pair) w := rfl
  have paired (i : Nat) : pair.unpaired i = false :=
    match i with
    | 0 | 1 | _ + 2 => rfl
  exact ⟨primitive, ((text_law env w).2 _ _ _ primitive).itself_iff.mpr paired⟩

/-- A leading surrogate that stands alone is a string, and is converted to another one. -/
theorem a_lone_surrogate_is_replaced :
    let env : Env Unit := .ofHost idle ⟨8⟩ ⟨64, 64⟩
    let w : World Unit := ⟨{}, ()⟩
    let lone : Text := ⟨[0xD800]⟩
    toPrimitive (.string lone) .string env w = .ok (.string lone) w ∧
      toText (.string lone) env w = .ok ⟨[0xFFFD]⟩ w ∧ toText (.string lone) env w ≠ .ok lone w := by
  intro env w lone
  have primitive : toPrimitive (.string lone) .string env w = .ok (.string lone) w := rfl
  have replaced : toText (.string lone) env w = .ok lone.mended w := (textLaw_of_toPrimitive primitive).mended
  refine ⟨primitive, replaced, ?_⟩
  rw [replaced, ne_eq, Result.ok.injEq]
  exact fun same => absurd same.1 (by decide)

end Act

end EcmaObjects
