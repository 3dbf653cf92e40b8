/-
  EcmaObjects.Proofs.Descriptor — what a redefinition may change.

  Two values are the same if they agree in everything that `Value.same` looks at
  (`Value.essence`), so being the same is an equivalence. `Descriptor.Retained c d` says
  that `d` has all that a property `c` keeps while it is not configurable: its attributes,
  its kind, its accessor functions, and its value if it is read-only. An admitted
  redefinition of such a property leaves all of that (`retained_merge`), if neither
  descriptor has the fields of both kinds.
-/

import EcmaObjects.Descriptor

namespace EcmaObjects

/-! ## The same value -/

/-- The value up to what `same` overlooks: which NaN a Number is, and how a symbol is described. -/
def Value.essence : Value → Value
  | .number n => .number (if n.isNaN then .nan else n)
  | .symbol s => .symbol ⟨s.id, none⟩
  | v => v

theorem Number.same_iff (x y : Number) :
    x.same y = true ↔ (if x.isNaN then Number.nan else x) = if y.isNaN then Number.nan else y := by
  have hnan : Number.nan.isNaN = true := by decide
  have bits (a b : Number) : a.bits = b.bits ↔ a = b := by cases a; cases b; simp
  unfold same
  by_cases hx : x.isNaN = true
  · by_cases hy : y.isNaN = true
    · simp [hx, hy]
    · have hne : x ≠ y := fun e => hy (e ▸ hx)
      have hne' : Number.nan ≠ y := fun e => hy (e ▸ hnan)
      simp [hx, hy, bits, hne, hne']
  · by_cases hy : y.isNaN = true
    · have hne : x ≠ y := fun e => hx (e ▸ hy)
      have hne' : x ≠ Number.nan := fun e => hx (e ▸ hnan)
      simp [hx, hy, bits, hne, hne']
    · simp [hx, hy, bits]

theorem Value.same_iff (v w : Value) : v.same w = true ↔ v.essence = w.essence := by
  cases v with
  | number x =>
    cases w with
    | number y => simp [same, essence, Number.same_iff]
    | _ => simp [same, strictEq, essence]
  | _ => cases w <;> simp [same, strictEq, essence]

/-- Two fields hold the same value, or nothing. -/
abbrev Value.SameField : Option Value → Option Value → Prop := Option.Rel fun v w => v.same w = true

theorem Value.sameField_iff {v w : Option Value} : SameField v w ↔ v.map essence = w.map essence := by
  cases v with
  | none => cases w <;> simp [SameField]
  | some v => cases w <;> simp [SameField, same_iff]

theorem Value.SameField.refl (v : Option Value) : SameField v v := sameField_iff.mpr rfl

theorem Value.SameField.trans {u v w : Option Value} (h : SameField u v) (h' : SameField v w) : SameField u w :=
  sameField_iff.mpr ((sameField_iff.mp h).trans (sameField_iff.mp h'))

namespace Descriptor

open Value (SameField)

/-! ## Kinds of properties -/

/-- A property is data or an accessor; what a definition asks for may be neither. -/
def HasKind (d : Descriptor) : Prop := (d.isData || d.isAccessor) = true

/-- Not data and an accessor at once. -/
def Unmixed (d : Descriptor) : Prop := (d.isData && d.isAccessor) = false

theorem Unmixed.not_data {d : Descriptor} (hd : d.Unmixed) (ha : d.isAccessor = true) : d.isData = false := by
  simpa [Unmixed, ha] using hd

theorem Unmixed.not_accessor {d : Descriptor} (hd : d.Unmixed) (hv : d.isData = true) : d.isAccessor = false := by
  simpa [Unmixed, hv] using hd

theorem no_data_fields {d : Descriptor} (h : d.isData = false) : d.value = none ∧ d.writable = none := by
  simpa [isData] using h

theorem no_accessor_fields {d : Descriptor} (h : d.isAccessor = false) : d.getter = none ∧ d.setter = none := by
  simpa [isAccessor] using h

theorem isData_overlay (c d : Descriptor) : (c.overlay d).isData = (d.isData || c.isData) := by
  cases hv : d.value <;> cases hw : d.writable <;> simp [overlay, isData, hv, hw]

theorem isAccessor_overlay (c d : Descriptor) : (c.overlay d).isAccessor = (d.isAccessor || c.isAccessor) := by
  cases hg : d.getter <;> cases hs : d.setter <;> simp [overlay, isAccessor, hg, hs]

theorem isData_complete (d : Descriptor) : d.complete.isData = (d.isData || !d.isAccessor) := by
  unfold complete
  by_cases h : d.isAccessor = true
  · simp [h, isData]
  · simp [h, isData]

theorem isAccessor_complete (d : Descriptor) : d.complete.isAccessor = d.isAccessor := by
  unfold complete
  by_cases h : d.isAccessor = true
  · rw [if_pos h, h]
    cases hg : d.getter <;> rfl
  · rw [if_neg h]
    rfl

/-- A merge keeps the current kind unless the other kind is asked for. -/
theorem isData_merge (c d : Descriptor) : (c.merge d).isData = (d.isData || (c.isData && !d.isAccessor)) := by
  rw [merge, isData_overlay, convert]
  by_cases h1 : (c.isData && d.isAccessor) = true
  · rw [if_pos h1]
    rw [Bool.and_eq_true] at h1
    show (d.isData || false) = _
    rw [h1.2, Bool.not_true, Bool.and_false]
  rw [if_neg h1]
  by_cases h2 : (c.isAccessor && d.isData) = true
  · rw [if_pos h2]
    rw [Bool.and_eq_true] at h2
    rw [h2.2, Bool.true_or, Bool.true_or]
  · rw [if_neg h2]
    cases hc : c.isData
    · rfl
    · have ha : d.isAccessor = false := by simpa [hc] using h1
      rw [ha]
      rfl

theorem isAccessor_merge (c d : Descriptor) :
    (c.merge d).isAccessor = (d.isAccessor || (c.isAccessor && !d.isData)) := by
  rw [merge, isAccessor_overlay, convert]
  by_cases h1 : (c.isData && d.isAccessor) = true
  · rw [if_pos h1]
    rw [Bool.and_eq_true] at h1
    rw [h1.2, Bool.true_or, Bool.true_or]
  rw [if_neg h1]
  by_cases h2 : (c.isAccessor && d.isData) = true
  · rw [if_pos h2]
    rw [Bool.and_eq_true] at h2
    show (d.isAccessor || false) = _
    rw [h2.2, Bool.not_true, Bool.and_false]
  · rw [if_neg h2]
    cases hc : c.isAccessor
    · rfl
    · have hd : d.isData = false := by simpa [hc] using h2
      rw [hd]
      rfl

theorem hasKind_complete (d : Descriptor) : d.complete.HasKind := by
  rw [HasKind, isData_complete, isAccessor_complete]
  cases d.isData <;> cases d.isAccessor <;> rfl

theorem unmixed_complete {d : Descriptor} (h : d.Unmixed) : d.complete.Unmixed := by
  rw [Unmixed, isData_complete, isAccessor_complete]
  cases ha : d.isAccessor
  · simp
  · rw [Unmixed, ha, Bool.and_true] at h
    simp [h]

theorem hasKind_merge {c : Descriptor} (h : c.HasKind) (d : Descriptor) : (c.merge d).HasKind := by
  rw [HasKind, isData_merge, isAccessor_merge]
  rw [HasKind, Bool.or_eq_true] at h
  rcases h with h | h
  · cases d.isAccessor <;> simp [h]
  · cases d.isData <;> simp [h]

theorem unmixed_merge {c d : Descriptor} (hc : c.Unmixed) (hd : d.Unmixed) : (c.merge d).Unmixed := by
  rw [Unmixed, isData_merge, isAccessor_merge]
  rw [Unmixed] at hc hd
  cases hdd : d.isData <;> cases hda : d.isAccessor
  · simp [hc]
  · simp
  · simp
  · rw [hdd, hda] at hd
    cases hd

/-! ## What a property retains -/

/-- What a property that is not configurable passes on to every later state. -/
structure Retained (c d : Descriptor) : Prop where
  configurable : d.configurable = c.configurable
  enumerable : d.enumerable = c.enumerable
  data : d.isData = c.isData
  accessor : d.isAccessor = c.isAccessor
  getter : c.isAccessor = true → SameField c.getter d.getter
  setter : c.isAccessor = true → SameField c.setter d.setter
  frozen : c.isData = true → c.writable = some false → d.writable = some false ∧ SameField c.value d.value

theorem Retained.refl (c : Descriptor) : c.Retained c :=
  ⟨rfl, rfl, rfl, rfl, fun _ => .refl _, fun _ => .refl _, fun _ hw => ⟨hw, .refl _⟩⟩

theorem Retained.trans {c d e : Descriptor} (h : c.Retained d) (h' : d.Retained e) : c.Retained e where
  configurable := h'.configurable.trans h.configurable
  enumerable := h'.enumerable.trans h.enumerable
  data := h'.data.trans h.data
  accessor := h'.accessor.trans h.accessor
  getter ha := (h.getter ha).trans (h'.getter (h.accessor.trans ha))
  setter ha := (h.setter ha).trans (h'.setter (h.accessor.trans ha))
  frozen hd hw := by
    obtain ⟨hw', hv⟩ := h.frozen hd hw
    obtain ⟨hw'', hv'⟩ := h'.frozen (h.data.trans hd) hw'
    exact ⟨hw'', hv.trans hv'⟩

/-- A data property that is not read-only retains no value. -/
theorem retained_data (v v' : Value) (e c : Bool) : (Descriptor.data v true e c).Retained (.data v' true e c) :=
  ⟨rfl, rfl, rfl, rfl, nofun, nofun, nofun⟩

theorem sameField_of_keeps {c w : Option Value} (h : keeps c w = true) : SameField c (w <|> c) := by
  cases w with
  | none => exact SameField.refl c
  | some w =>
    cases c with
    | none => cases h
    | some c => exact .some h

/-- What a definition asks of a property that admits it while it is not configurable: none
    but its own attributes, its own kind or neither, its own accessor functions, and, if it
    is read-only, its own value. -/
structure Admitted (c d : Descriptor) : Prop where
  configurable : d.configurable ≠ some true
  enumerable : d.enumerable = none ∨ d.enumerable = c.enumerable
  data : d.isData = true → c.isData = true
  accessor : d.isAccessor = true → c.isAccessor = true
  getter : c.isAccessor = true → keeps c.getter d.getter = true
  setter : c.isAccessor = true → keeps c.setter d.setter = true
  frozen : c.isData = true → c.writable = some false → d.writable ≠ some true ∧ keeps c.value d.value = true

theorem isAccessor_of_kind {c : Descriptor} (hk : c.HasKind) (hm : c.Unmixed) : c.isAccessor = !c.isData := by
  rw [HasKind] at hk
  rw [Unmixed] at hm
  cases hd : c.isData
  · simpa [hd] using hk
  · simpa [hd] using hm

theorem admitted_of_admits {c d : Descriptor} (hk : c.HasKind) (hm : c.Unmixed) (hc : c.configurable = some false)
    (hd : d.Unmixed) (h : c.admits d = true) : c.Admitted d := by
  have kind := isAccessor_of_kind hk hm
  unfold admits at h
  split at h
  · rename_i hn
    simp [hc] at hn
  split at h
  · cases h
  rename_i hconf
  split at h
  · cases h
  rename_i henum
  have configurable : d.configurable ≠ some true := by simpa using hconf
  have enumerable : d.enumerable = none ∨ d.enumerable = c.enumerable := by
    cases he : d.enumerable with
    | none => exact Or.inl rfl
    | some b => exact Or.inr (by simpa [he] using henum)
  split at h
  · -- Nothing of either kind is asked for.
    rename_i hg
    obtain ⟨hdd, hda⟩ : d.isData = false ∧ d.isAccessor = false := by simpa using hg
    obtain ⟨hv, hw⟩ := no_data_fields hdd
    obtain ⟨hget, hset⟩ := no_accessor_fields hda
    refine ⟨configurable, enumerable, by simp [hdd], by simp [hda], fun _ => ?_, fun _ => ?_, fun _ _ => ?_⟩
    · rw [hget]; rfl
    · rw [hset]; rfl
    · rw [hv, hw]; exact ⟨nofun, rfl⟩
  split at h
  · cases h
  rename_i hg hsame
  have same : d.isData = c.isData := (by simpa using hsame : c.isData = d.isData).symm
  have asks : d.HasKind := by
    cases hdd : d.isData
    · simpa [HasKind, hdd] using hg
    · simp [HasKind, hdd]
  have same' : d.isAccessor = c.isAccessor := by rw [kind, ← same, isAccessor_of_kind asks hd]
  refine ⟨configurable, enumerable, by simp [same], by simp [same'], fun ha => ?_, fun ha => ?_, fun hdata hw => ?_⟩
  · rw [if_pos ha, Bool.and_eq_true] at h
    exact h.1
  · rw [if_pos ha, Bool.and_eq_true] at h
    exact h.2
  · simpa [kind, hdata, hw] using h

theorem orElse_false {b : Option Bool} (h : b ≠ some true) : (b <|> some false) = some false := by
  cases b with
  | none => rfl
  | some b =>
    cases b with
    | false => rfl
    | true => exact absurd rfl h

/-- A redefinition that a property admits while it is not configurable leaves what the property retains. -/
theorem retained_merge {c d : Descriptor} (hk : c.HasKind) (hm : c.Unmixed) (hc : c.configurable = some false)
    (hd : d.Unmixed) (h : c.admits d = true) : c.Retained (c.merge d) := by
  have asked := admitted_of_admits hk hm hc hd h
  have kind := isAccessor_of_kind hk hm
  have merged : c.merge d = c.overlay d := by
    rw [merge, convert]
    cases hcd : c.isData
    · have hdd : d.isData = false := by simpa [hcd] using asked.data
      simp [hdd]
    · have hca : c.isAccessor = false := by rw [kind, hcd]; rfl
      have hda : d.isAccessor = false := by simpa [hca] using asked.accessor
      simp [hca, hda]
  constructor
  · rw [merged, hc]
    show (d.configurable <|> c.configurable) = some false
    rw [hc, orElse_false asked.configurable]
  · rw [merged]
    show (d.enumerable <|> c.enumerable) = c.enumerable
    rcases asked.enumerable with he | he
    · rw [he]; rfl
    · rw [he]; cases c.enumerable <;> rfl
  · rw [merged, isData_overlay]
    cases hdd : d.isData
    · rfl
    · rw [asked.data hdd]; rfl
  · rw [merged, isAccessor_overlay]
    cases hda : d.isAccessor
    · rfl
    · rw [asked.accessor hda]; rfl
  · intro ha
    rw [merged]
    exact sameField_of_keeps (asked.getter ha)
  · intro ha
    rw [merged]
    exact sameField_of_keeps (asked.setter ha)
  · intro hdata hw
    obtain ⟨hdw, hv⟩ := asked.frozen hdata hw
    rw [merged]
    refine ⟨?_, sameField_of_keeps hv⟩
    show (d.writable <|> c.writable) = some false
    rw [hw, orElse_false hdw]

end Descriptor

end EcmaObjects
