/-
  EcmaObjects.Proofs.ArrayIndex — an index has one spelling.

  Reading digits and writing the number again gives the digits back, unless they start
  with a needless zero (`toDigits_ofDigitChars`). So two strings that name one index are
  one string (`arrayIndex?_inj`), and no two keys are one exotic key (`exotic?_inj`). A
  written index is read as itself (`arrayIndex?_toString`), so every index has its key
  (`PropertyKey.ofIndex`).
  - `index_law`: the strings that are indices are the decimal spellings (`Spells`) of the
    numbers below `2^32 - 1`, each other string is refused (`ReadsIndices`), and an element
    has one key.
-/

import EcmaObjects.Object

namespace EcmaObjects

/-! ## Digits -/

theorem digitChar_of_isDigit {c : Char} (h : c.isDigit = true) :
    c.toNat - '0'.toNat < 10 ∧ (c.toNat - '0'.toNat).digitChar = c := by
  have hd : 48 ≤ c.toNat ∧ c.toNat ≤ 57 := by simpa [Char.isDigit, UInt32.le_iff_toNat_le] using h
  have hz : '0'.toNat = 48 := rfl
  refine ⟨by omega, Char.toNat_inj.mp ?_⟩
  rw [Nat.toNat_digitChar_of_lt_ten (by omega)]
  omega

/-- Digits read after a positive number are written after it. -/
theorem toDigits_ofDigitChars_of_pos {cs : List Char} (hd : ∀ c ∈ cs, c.isDigit = true) {n : Nat} (hn : 0 < n) :
    Nat.toDigits 10 (Nat.ofDigitChars 10 cs n) = Nat.toDigits 10 n ++ cs := by
  induction cs generalizing n with
  | nil => rw [Nat.ofDigitChars_nil, List.append_nil]
  | cons c cs ih =>
    obtain ⟨hlt, hc⟩ := digitChar_of_isDigit (hd c List.mem_cons_self)
    have hrest : ∀ c ∈ cs, c.isDigit = true := fun c' hm => hd c' (List.mem_cons_of_mem c hm)
    have hone : Nat.toDigits 10 (10 * n + (c.toNat - '0'.toNat)) = Nat.toDigits 10 n ++ [c] := by
      rw [← Nat.toDigits_append_toDigits (by decide) hn hlt, Nat.toDigits_of_lt_base hlt, hc]
    rw [Nat.ofDigitChars_cons, ih hrest (by omega), hone, List.append_assoc, List.singleton_append]

/-- Digits without a needless zero at the front are how the number that they name is written. -/
theorem toDigits_ofDigitChars {cs : List Char} (h : isCanonicalDecimal cs = true) :
    Nat.toDigits 10 (Nat.ofDigitChars 10 cs 0) = cs := by
  simp only [isCanonicalDecimal, Bool.and_eq_true, List.all_eq_true] at h
  obtain ⟨⟨hd, hne⟩, hz⟩ := h
  cases cs with
  | nil => cases hne
  | cons c cs =>
    obtain ⟨hlt, hc⟩ := digitChar_of_isDigit (hd c List.mem_cons_self)
    have hrest : ∀ c ∈ cs, c.isDigit = true := fun c' hm => hd c' (List.mem_cons_of_mem c hm)
    rw [Nat.ofDigitChars_cons, Nat.mul_zero, Nat.zero_add]
    by_cases hpos : 0 < c.toNat - '0'.toNat
    · rw [toDigits_ofDigitChars_of_pos hrest hpos, Nat.toDigits_of_lt_base hlt, hc, List.singleton_append]
    · have hzero : c.toNat - '0'.toNat = 0 := by omega
      have hc' : c = '0' := by rw [← hc, hzero]; rfl
      have hnil : cs = [] := by simpa [hc'] using hz
      subst hnil
      rw [Nat.ofDigitChars_nil, Nat.toDigits_of_lt_base hlt, hc]

/-- A positive number is written without a zero at the front. -/
theorem head?_toDigits_of_pos {n : Nat} (hn : 0 < n) : (Nat.toDigits 10 n).head? ≠ some '0' := by
  induction n using Nat.strongRecOn with
  | ind n ih =>
    by_cases hlt : n < 10
    · rw [Nat.toDigits_of_lt_base hlt]
      intro h
      have hc : n.digitChar = '0' := by simpa using h
      have hv := Nat.toNat_digitChar_of_lt_ten hlt
      have hz : '0'.toNat = 48 := rfl
      rw [hc] at hv
      omega
    · have hone : Nat.toDigits 10 n = Nat.toDigits 10 (n / 10) ++ Nat.toDigits 10 (n % 10) := by
        rw [Nat.toDigits_append_toDigits (by decide) (by omega) (Nat.mod_lt n (by decide)), Nat.div_add_mod]
      obtain ⟨c, cs, hcons⟩ := List.exists_cons_of_ne_nil (Nat.toDigits_ne_nil (n := n / 10) (b := 10))
      have first := ih (n / 10) (by omega) (by omega)
      rw [hcons] at first
      rw [hone, hcons]
      exact first

theorem isCanonicalDecimal_toDigits (n : Nat) : isCanonicalDecimal (Nat.toDigits 10 n) = true := by
  have digits : (Nat.toDigits 10 n).all Char.isDigit = true :=
    List.all_eq_true.mpr fun c hc => Nat.isDigit_of_mem_toDigits (by decide) (by decide) hc
  have nonempty : (Nat.toDigits 10 n).isEmpty = false := List.isEmpty_eq_false_iff.mpr Nat.toDigits_ne_nil
  rw [isCanonicalDecimal, digits, nonempty]
  rcases Nat.eq_zero_or_pos n with rfl | hn
  · rfl
  · simp [head?_toDigits_of_pos hn]

/-! ## Keys -/

theorem toList_of_arrayIndex? {s : String} {n : Nat} (h : arrayIndex? s = some n) :
    s.toList = Nat.toDigits 10 n ∧ n < maxArrayLength := by
  unfold arrayIndex? at h
  split at h
  · rename_i hc
    obtain ⟨hn, hlt⟩ := Option.filter_eq_some_iff.mp h
    cases hn
    exact ⟨(toDigits_ofDigitChars hc).symm, of_decide_eq_true hlt⟩
  · cases h

theorem arrayIndex?_inj {s t : String} {n : Nat} (hs : arrayIndex? s = some n) (ht : arrayIndex? t = some n) : s = t :=
  String.toList_injective ((toList_of_arrayIndex? hs).1.trans (toList_of_arrayIndex? ht).1.symm)

/-- A written index is read as itself. -/
theorem arrayIndex?_toString {n : Nat} (h : n < maxArrayLength) : arrayIndex? (toString n) = some n := by
  have list : (toString n).toList = Nat.toDigits 10 n := String.toList_ofList
  rw [arrayIndex?, list, if_pos (isCanonicalDecimal_toDigits n), Nat.ofDigitChars_toDigits (by decide) (by decide)]
  simp [h]

/-- The key of an array index. -/
def PropertyKey.ofIndex (n : Nat) : PropertyKey := .text (toString n)

theorem PropertyKey.exotic?_ofIndex {n : Nat} (h : n < maxArrayLength) : (ofIndex n).exotic? = some (.index n) := by
  have found := arrayIndex?_toString h
  have other : toString n ≠ "length" := by
    intro e
    rw [e, show arrayIndex? "length" = none by decide] at found
    cases found
  rw [ofIndex, exotic?, if_neg other, found]
  rfl

theorem PropertyKey.lt_of_exotic? {k : PropertyKey} {i : Nat} (h : k.exotic? = some (.index i)) : i < maxArrayLength := by
  cases k with
  | symbol n => cases h
  | text s =>
    rw [exotic?] at h
    split at h
    · cases h
    · obtain ⟨j, hj, he⟩ := Option.map_eq_some_iff.mp h
      cases he
      exact (toList_of_arrayIndex? hj).2

/-- No two keys are one exotic key. -/
theorem PropertyKey.exotic?_inj {k k' : PropertyKey} {x : ExoticKey} (h : k.exotic? = some x) (h' : k'.exotic? = some x) :
    k = k' := by
  cases k with
  | symbol n => cases h
  | text s =>
    cases k' with
    | symbol n => cases h'
    | text t =>
      simp only [exotic?] at h h'
      split at h <;> split at h'
      · rename_i hs ht
        rw [hs, ht]
      · cases h
        simp at h'
      · cases h'
        simp at h
      · obtain ⟨i, hi, rfl⟩ := Option.map_eq_some_iff.mp h
        obtain ⟨j, hj, he⟩ := Option.map_eq_some_iff.mp h'
        cases he
        rw [arrayIndex?_inj hi hj]

theorem PropertyKey.eq_ofIndex {k : PropertyKey} {i : Nat} (h : k.exotic? = some (.index i)) : k = ofIndex i :=
  exotic?_inj h (exotic?_ofIndex (lt_of_exotic? h))

/-! ## Decimal spellings -/

/-- A number is spelled by its digits, the highest first: a digit by itself, or one digit more
    after the spelling of a positive number. -/
inductive Spells : List Char → Nat → Prop
  | digit {d : Nat} : d < 10 → Spells [d.digitChar] d
  | more {cs : List Char} {n d : Nat} : Spells cs n → 0 < n → d < 10 → Spells (cs ++ [d.digitChar]) (10 * n + d)

theorem spells_toDigits (n : Nat) : Spells (Nat.toDigits 10 n) n := by
  induction n using Nat.strongRecOn with
  | ind n ih =>
    by_cases hlt : n < 10
    · rw [Nat.toDigits_of_lt_base hlt]
      exact .digit hlt
    · have last : n % 10 < 10 := Nat.mod_lt n (by decide)
      have front : Spells (Nat.toDigits 10 (n / 10)) (n / 10) := ih (n / 10) (by omega)
      have both := front.more (by omega) last
      rw [← Nat.toDigits_of_lt_base last, Nat.toDigits_append_toDigits (by decide) (by omega) last,
        Nat.div_add_mod] at both
      exact both

theorem spells_iff {cs : List Char} {n : Nat} : Spells cs n ↔ cs = Nat.toDigits 10 n := by
  constructor
  · intro h
    induction h with
    | digit hd => exact (Nat.toDigits_of_lt_base hd).symm
    | more _ hn hd ih => rw [ih, ← Nat.toDigits_of_lt_base hd, Nat.toDigits_append_toDigits (by decide) hn hd]
  · rintro rfl
    exact spells_toDigits n

theorem Spells.unique {cs : List Char} {n m : Nat} (hn : Spells cs n) (hm : Spells cs m) : n = m := by
  have same : Nat.toDigits 10 n = Nat.toDigits 10 m := (spells_iff.mp hn).symm.trans (spells_iff.mp hm)
  have value := congrArg (Nat.ofDigitChars 10 · 0) same
  simpa only [Nat.ofDigitChars_toDigits (b := 10) (by decide) (by decide)] using value

theorem spells_toList_iff {s : String} {n : Nat} : Spells s.toList n ↔ s = toString n := by
  have list : (toString n).toList = Nat.toDigits 10 n := String.toList_ofList
  rw [spells_iff, ← list]
  exact String.toList_inj

/-! ## The law of indices -/

theorem arrayIndex?_eq_some_iff {s : String} {n : Nat} :
    arrayIndex? s = some n ↔ n < maxArrayLength ∧ s = toString n := by
  constructor
  · intro h
    obtain ⟨list, lt⟩ := toList_of_arrayIndex? h
    exact ⟨lt, spells_toList_iff.mp (spells_iff.mpr list)⟩
  · rintro ⟨lt, rfl⟩
    exact arrayIndex?_toString lt

theorem isCanonicalDecimal_of_arrayIndex? {s : String} (h : arrayIndex? s ≠ none) : isCanonicalDecimal s.toList = true := by
  unfold arrayIndex? at h
  split at h
  · assumption
  · exact absurd rfl h

theorem arrayIndex?_eq_none_of_not_digit {s : String} {c : Char} (hc : c ∈ s.toList) (h : c.isDigit = false) :
    arrayIndex? s = none := by
  refine Decidable.byContradiction fun read => ?_
  have canonical := isCanonicalDecimal_of_arrayIndex? read
  simp only [isCanonicalDecimal, Bool.and_eq_true, List.all_eq_true] at canonical
  have digit := canonical.1.1 c hc
  rw [h] at digit
  cases digit

theorem arrayIndex?_padded {s : String} (h : s ≠ "") : arrayIndex? ("0" ++ s) = none := by
  refine Decidable.byContradiction fun read => ?_
  have canonical := isCanonicalDecimal_of_arrayIndex? read
  have list : ("0" ++ s).toList = '0' :: s.toList := String.toList_append
  have rest : s.toList ≠ [] := fun nil => h (String.toList_inj.mp nil)
  simp [isCanonicalDecimal, list, rest] at canonical

/-- Ten digits suffice for every index. -/
theorem length_le_of_arrayIndex? {s : String} {n : Nat} (h : arrayIndex? s = some n) : s.length ≤ 10 := by
  obtain ⟨list, lt⟩ := toList_of_arrayIndex? h
  have small : n < 10 ^ 10 := Nat.lt_trans lt (by decide)
  rw [← String.length_toList, list, Nat.length_toDigits_le_iff (by decide) (by decide)]
  exact small

/-- The reader takes the decimal spellings of the numbers below `2^32 - 1`, and no other string. -/
structure ReadsIndices (read : String → Option Nat) : Prop where
  reads_iff {s : String} {n : Nat} : read s = some n ↔ n < 4294967295 ∧ Spells s.toList n
  printed {s : String} {n : Nat} : Spells s.toList n ↔ s = toString n
  inverts {n : Nat} : n < 4294967295 → read (toString n) = some n
  injective {s t : String} {n : Nat} : read s = some n → read t = some n → s = t
  empty : read "" = none
  padded {s : String} : s ≠ "" → read ("0" ++ s) = none
  signed (s : String) : read ("-" ++ s) = none ∧ read ("+" ++ s) = none
  /-- ASCII digits are the only ones. -/
  not_digit {s : String} {c : Char} : c ∈ s.toList → c.isDigit = false → read s = none
  large {n : Nat} : 4294967295 ≤ n → read (toString n) = none
  long {s : String} : 10 < s.length → read s = none

theorem reads_arrayIndex? : ReadsIndices arrayIndex? := by
  have sign (c : Char) (s : String) (h : c.isDigit = false) : arrayIndex? (c.toString ++ s) = none := by
    refine arrayIndex?_eq_none_of_not_digit (c := c) ?_ h
    rw [String.toList_append]
    exact List.mem_append_left _ (by simp [Char.toString])
  refine ⟨?reads_iff, spells_toList_iff, arrayIndex?_toString, arrayIndex?_inj, by decide, arrayIndex?_padded,
    fun s => ⟨sign '-' s rfl, sign '+' s rfl⟩, arrayIndex?_eq_none_of_not_digit, ?large, ?long⟩
  case reads_iff =>
    intro s n
    rw [arrayIndex?_eq_some_iff, spells_toList_iff]
    rfl
  case large =>
    intro n large
    refine Option.eq_none_iff_forall_ne_some.mpr fun m read => ?_
    obtain ⟨lt, same⟩ := arrayIndex?_eq_some_iff.mp read
    have equal : n = m := (spells_toList_iff.mpr rfl).unique (spells_toList_iff.mpr same)
    unfold maxArrayLength at lt
    omega
  case long =>
    intro s long
    refine Option.eq_none_iff_forall_ne_some.mpr fun n read => ?_
    have short := length_le_of_arrayIndex? read
    omega

/-- Arrays and wrapped strings read the indices so: the only key of an element is the decimal of its index. -/
theorem index_law :
    ReadsIndices arrayIndex? ∧
      ∀ (k : PropertyKey) (i : Nat), k.exotic? = some (.index i) ↔ i < 4294967295 ∧ k = .text (toString i) := by
  refine ⟨reads_arrayIndex?, ?_⟩
  intro k i
  constructor
  · intro h
    exact ⟨PropertyKey.lt_of_exotic? h, PropertyKey.eq_ofIndex h⟩
  · rintro ⟨lt, rfl⟩
    exact PropertyKey.exotic?_ofIndex lt

end EcmaObjects
