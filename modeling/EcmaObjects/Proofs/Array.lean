/-
  EcmaObjects.Proofs.Array — the elements of an array and its length.

  The length of an array is the value of its own property `length` (`Store.LengthIs`), its
  elements are its properties at the keys of array indices. Every element lies below the
  length, and the length is one that an array can have (`Elements.Fits`): so an array is
  made, and so every step leaves it (`Object.ElementsFit.step`). The property table of an
  array holds nothing at these keys (`Object.Sound`).
  `array_law` says for every array after any run what its definitions then do: one at an
  index raises the length to reach over the index, one of the length drops the elements
  from there on, and which definitions of the length are granted.
-/

import EcmaObjects.Proofs.ArrayIndex
import EcmaObjects.Proofs.Number
import EcmaObjects.Proofs.Permanent

namespace EcmaObjects

variable {R : Rules} {σ α : Type}

/-! ## Lengths as Numbers -/

/-- The value is a Number, and that a natural one. -/
def Value.IsNatural (v : Value) (n : ℕ) : Prop := ∃ x, v = .number x ∧ x.value? = some (n : ℚ)

theorem Value.isNatural_ofNat {n : ℕ} (h : n ≤ maxArrayLength) : (Value.number (.ofNat n)).IsNatural n := by
  refine ⟨_, rfl, Number.value?_ofNat ?_⟩
  unfold maxArrayLength at h
  omega

namespace Elements

theorem lengthOf?_eq_some_iff {v : Value} {n : ℕ} : lengthOf? v = some n ↔ v.IsNatural n ∧ n ≤ maxArrayLength := by
  cases v with
  | number x => simp [lengthOf?, Value.IsNatural, Option.filter_eq_some_iff, Number.toNat?_eq_some_iff]
  | _ => simp [lengthOf?, Value.IsNatural]

/-! ## Elements below the length -/

structure Fits (e : Elements) : Prop where
  length_le : e.length ≤ maxArrayLength
  index_lt {i : ℕ} {v : Value} : i < maxArrayLength → e.get? i = some v → i < e.length

theorem fits_ofValues (values : Array Value) : (ofValues values).Fits := by
  refine ⟨Nat.min_le_right _ _, ?_⟩
  intro i v hi hv
  have stored : i < values.size := by
    have hv' : values[i]? = some v := by simpa [ofValues, get?] using hv
    exact (Array.getElem?_eq_some_iff.mp hv').1
  exact Nat.lt_min.mpr ⟨stored, hi⟩

theorem length_set (e : Elements) (i : ℕ) (v : Value) : (e.set i v).length = max e.length (i + 1) := by
  unfold set
  split
  · rfl
  · split <;> rfl

theorem Fits.set {e : Elements} (h : e.Fits) {i : ℕ} (hi : i < maxArrayLength) (v : Value) : (e.set i v).Fits := by
  have le := h.length_le
  refine ⟨by rw [length_set]; omega, ?_⟩
  intro j u hj hu
  rw [length_set]
  by_cases e' : j = i
  · omega
  · rw [get?_set_ne e v e'] at hu
    have lt := h.index_lt hj hu
    omega

theorem fits_setLength (e : Elements) {n : ℕ} (hn : n ≤ maxArrayLength) : (e.setLength n).Fits := by
  refine ⟨hn, ?_⟩
  intro j u _ hu
  rw [get?_setLength] at hu
  split at hu
  · assumption
  · cases hu

/-! ## Definitions -/

theorem defineElement?_cases {e e' : Elements} {i : ℕ} {d : Descriptor} (h : e.defineElement? i d = some e') :
    ∃ v, e' = e.set i v := by
  unfold defineElement? at h
  split at h
  · cases h
  · cases h
    exact ⟨_, rfl⟩

/-- The ways in which an array accepts a definition of its length. -/
theorem defineLength?_cases {e e' : Elements} {d : Descriptor} (h : e.defineLength? d = some e') :
    (d.value = none ∧ e' = e) ∨
      ∃ v n, d.value = some v ∧ v.IsNatural n ∧ n ≤ maxArrayLength ∧ e' = e.setLength n := by
  unfold defineLength? at h
  split at h
  · cases h
  split at h
  · rename_i hv
    cases h
    exact Or.inl ⟨hv, rfl⟩
  · rename_i v hv
    obtain ⟨n, hn, rfl⟩ := Option.map_eq_some_iff.mp h
    obtain ⟨natural, le⟩ := lengthOf?_eq_some_iff.mp hn
    exact Or.inr ⟨v, n, hv, natural, le, rfl⟩

theorem Fits.define? {e e' : Elements} (h : e.Fits) {x : ExoticKey} (hx : ∀ i, x = .index i → i < maxArrayLength)
    {d : Descriptor} (hd : e.define? x d = some e') : e'.Fits := by
  cases x with
  | length =>
    rcases defineLength?_cases hd with ⟨-, rfl⟩ | ⟨v, n, -, -, le, rfl⟩
    · exact h
    · exact fits_setLength e le
  | index i =>
    obtain ⟨v, rfl⟩ := defineElement?_cases hd
    exact h.set (hx i rfl) v

/-- The length is a property that is not configurable, not enumerable, and writable. -/
theorem lengthProperty_admits_iff {e : Elements} {d : Descriptor} (hd : d.isData = true) :
    e.lengthProperty.admits d = true ↔ d.enumerable ≠ some true ∧ d.configurable ≠ some true := by
  have data : e.lengthProperty.isData = true := rfl
  have accessor : e.lengthProperty.isAccessor = false := rfl
  have writable : e.lengthProperty.writable = some true := rfl
  have enumerable : e.lengthProperty.enumerable = some false := rfl
  have configurable : e.lengthProperty.configurable = some false := rfl
  unfold Descriptor.admits
  simp only [data, accessor, writable, enumerable, configurable, hd]
  rcases d.configurable with _ | _ | _ <;> rcases d.enumerable with _ | _ | _ <;> simp

/-- Which definitions of its length with a value an array accepts. -/
theorem defineLength?_isSome_iff {e : Elements} {d : Descriptor} {v : Value} (hv : d.value = some v) :
    (∃ e', e.defineLength? d = some e') ↔ (∃ n ≤ maxArrayLength, v.IsNatural n) ∧
      d.enumerable ≠ some true ∧ d.configurable ≠ some true ∧ d.writable ≠ some false := by
  have data : d.isData = true := by simp [Descriptor.isData, hv]
  have admits := lengthProperty_admits_iff (e := e) data
  unfold defineLength?
  by_cases refused : (!e.lengthProperty.admits d || d.writable == some false) = true
  · rw [if_pos refused]
    simp only [Bool.or_eq_true, Bool.not_eq_true', Bool.eq_false_iff, ne_eq, admits, beq_iff_eq] at refused
    refine ⟨fun h => h.elim fun _ e => absurd e.symm (Option.some_ne_none _), ?_⟩
    rintro ⟨-, enumerable, configurable, writable⟩
    rcases refused with refused | refused
    · exact absurd ⟨enumerable, configurable⟩ refused
    · exact absurd refused writable
  · rw [if_neg refused]
    simp only [Bool.or_eq_true, Bool.not_eq_true', Bool.eq_false_iff, ne_eq, admits, beq_iff_eq, not_or, not_not] at refused
    obtain ⟨⟨enumerable, configurable⟩, writable⟩ := refused
    simp only [hv, Option.map_eq_some_iff, lengthOf?_eq_some_iff]
    constructor
    · rintro ⟨e', n, ⟨natural, le⟩, -⟩
      exact ⟨⟨n, le, natural⟩, enumerable, configurable, writable⟩
    · rintro ⟨⟨n, le, natural⟩, -⟩
      exact ⟨_, n, ⟨natural, le⟩, rfl⟩

end Elements

/-! ## Arrays in every state -/

namespace Object

/-- If this is an array, its elements fit. -/
def ElementsFit (obj : Object) : Prop := ∀ e, obj.kind = .array e → e.Fits

theorem ElementsFit.define {obj obj' : Object} (hf : obj.ElementsFit) {k : PropertyKey} {d : Descriptor}
    (h : obj.define? k d = some obj') : obj'.ElementsFit := by
  rcases define?_cases h with ⟨e, e', x, ha, hx, he, rfl⟩ | ⟨t, x, c, -, -, -, -, rfl⟩ | ⟨-, -, t, -, rfl⟩
  · intro e₁ h₁
    cases h₁
    refine (hf e ha).define? ?_ he
    rintro i rfl
    exact PropertyKey.lt_of_exotic? hx
  · exact hf
  · exact hf

theorem ElementsFit.step {obj obj' : Object} (hf : obj.ElementsFit) (h : obj.Step R obj') : obj'.ElementsFit := by
  cases h with
  | define _ hd => exact hf.define hd
  | advance hn =>
    obtain ⟨i, rfl⟩ := nextItem?_frame hn
    exact hf
  | reparent | prevent | insert => exact hf

theorem Born.elementsFit {obj : Object} (h : obj.Born) : obj.ElementsFit := by
  intro e he
  cases h with
  | plain _ _ hk =>
    have kind := congrArg Kind.isArray he
    rw [hk] at kind
    cases kind
  | array values _ =>
    cases he
    exact Elements.fits_ofValues values
  | function | error => cases he

end Object

theorem Realm.objects_elementsFit {obj : Object} (h : obj ∈ Realm.objects) : obj.ElementsFit := by
  intro e he
  have first : ∀ obj ∈ Realm.objects, obj.kind.isArray = true → obj.kind = .array (.ofValues #[]) := by decide
  have empty := first obj h (by rw [he]; rfl)
  rw [he] at empty
  cases empty
  exact Elements.fits_ofValues #[]

theorem Machine.Reachable.elementsFit {m : Machine} (h : m.Reachable R) {o : ObjectId} {obj : Object}
    (ho : m.store.get? o = some obj) : obj.ElementsFit :=
  h.all (fun _ hm => Realm.objects_elementsFit hm) (fun _ hb => hb.elementsFit) (fun _ _ hs hp => hp.step hs) ho

/-! ## What definitions do to an array -/

/-- The length of an array, as its own property shows it. -/
def Store.LengthIs (s : Store) (o : ObjectId) (n : ℕ) : Prop :=
  ∃ v, s.own? o "length" = some (.data v true false false) ∧ v.IsNatural n

open PropertyKey (ofIndex exotic?_ofIndex)

section
variable {s : Store} {o : ObjectId} {obj : Object} {e : Elements}

theorem Store.own?_of_get? (ho : s.get? o = some obj) (k : PropertyKey) : s.own? o k = obj.own? k := by
  rw [own?, ho]
  rfl

/-- At an exotic key an array shows what its elements answer. -/
theorem Object.Sound.own?_exotic (hs : obj.Sound) (ha : obj.kind = .array e) {k : PropertyKey} {x : ExoticKey}
    (hx : k.exotic? = some x) : obj.own? k = e.own? x := by
  have free : obj.properties.get? k = none := hs.apart (by rw [ha]; rfl) hx
  have elements : obj.exotic? k = e.own? x := by
    rw [exotic?, ha, hx]
    rfl
  rw [own?, elements, free]
  cases e.own? x <;> rfl

theorem Object.Sound.own?_ofIndex (hs : obj.Sound) (ha : obj.kind = .array e) {i : ℕ} (hi : i < maxArrayLength) :
    obj.own? (ofIndex i) = (e.get? i).map .plain :=
  hs.own?_exotic ha (exotic?_ofIndex hi)

theorem Store.lengthIs_of_array (ho : s.get? o = some obj) (ha : obj.kind = .array e) (hf : e.Fits) :
    s.LengthIs o e.length := by
  refine ⟨_, ?_, Value.isNatural_ofNat hf.length_le⟩
  rw [own?_of_get? ho, Object.own?_array_length ha]
  rfl

/-- At its exotic keys an array grants what its elements accept, and nothing else of it changes. -/
theorem define_array_eq_true {w w' : World σ} {k : PropertyKey} {x : ExoticKey} {d : Descriptor} {env : Env σ}
    (ho : w.machine.store.get? o = some obj) (ha : obj.kind = .array e) (hx : k.exotic? = some x) :
    Act.define o k d env w = .ok true w' ↔ ∃ e', e.define? x d = some e' ∧
      w' = { w with machine := { w.machine with
        store := w.machine.store.modify o fun _ => { obj with kind := .array e' } } } := by
  have defined : obj.define? k d = (e.define? x d).map fun e' => { obj with kind := .array e' } := by
    rw [Object.define?, ha, hx]
  constructor
  · intro h
    obtain ⟨s', hs, rfl⟩ := Act.define_eq_true.mp h
    obtain ⟨obj₁, obj₂, hg, hd, rfl⟩ := Store.define?_eq_some.mp hs
    cases ho.symm.trans hg
    rw [defined] at hd
    obtain ⟨e', he, rfl⟩ := Option.map_eq_some_iff.mp hd
    exact ⟨e', he, rfl⟩
  · rintro ⟨e', he, rfl⟩
    have hd : obj.define? k d = some { obj with kind := .array e' } := by rw [defined, he]; rfl
    exact Act.define_eq_true.mpr ⟨_, Store.define?_eq_some.mpr ⟨obj, _, ho, hd, rfl⟩, rfl⟩

/-- What an array is after a definition that it grants. -/
theorem Object.Sound.define_array (hs : obj.Sound) {w w' : World σ} {k : PropertyKey} {x : ExoticKey} {d : Descriptor}
    {env : Env σ} (ho : w.machine.store.get? o = some obj) (ha : obj.kind = .array e) (hx : k.exotic? = some x)
    (h : Act.define o k d env w = .ok true w') :
    ∃ e', e.define? x d = some e' ∧ w'.machine.store.get? o = some { obj with kind := .array e' } ∧
      Object.Sound { obj with kind := .array e' } := by
  obtain ⟨e', he, rfl⟩ := (define_array_eq_true ho ha hx).mp h
  exact ⟨e', he, Store.get?_modify_self ho _, ⟨hs.kinded, fun _ => hs.apart (by rw [ha]; rfl)⟩⟩

end

/-- An array of length `n` in the world `w`: what it owns, and what its definitions do. -/
structure ArrayLaw (o : ObjectId) (w : World σ) (n : ℕ) : Prop where
  length : w.machine.store.LengthIs o n
  below {i : ℕ} : i < maxArrayLength → w.machine.store.own? o (ofIndex i) ≠ none → i < n
  /-- The table has neither the length nor an element. -/
  apart {obj : Object} : w.machine.store.get? o = some obj →
    obj.properties.get? "length" = none ∧ ∀ i < maxArrayLength, obj.properties.get? (ofIndex i) = none
  /-- An element raises the length to reach over its index, and leaves the other elements. -/
  element {env : Env σ} {w' : World σ} {i : ℕ} {d : Descriptor} : i < maxArrayLength →
    Act.define o (ofIndex i) d env w = .ok true w' →
    w'.machine.store.LengthIs o (max n (i + 1)) ∧
      ∀ j < maxArrayLength, j ≠ i → w'.machine.store.own? o (ofIndex j) = w.machine.store.own? o (ofIndex j)
  /-- A length drops the elements from there on, and leaves those below. -/
  truncate {env : Env σ} {w' : World σ} {d : Descriptor} {v : Value} : d.value = some v →
    Act.define o "length" d env w = .ok true w' →
    ∃ m, v.IsNatural m ∧ w'.machine.store.LengthIs o m ∧
      ∀ i < maxArrayLength, w'.machine.store.own? o (ofIndex i) =
        if i < m then w.machine.store.own? o (ofIndex i) else none
  granted_iff {env : Env σ} {d : Descriptor} {v : Value} : d.Unmixed → d.value = some v →
    ((∃ w', Act.define o "length" d env w = .ok true w') ↔
      (∃ m ≤ maxArrayLength, v.IsNatural m) ∧ d.isAccessor = false ∧ d.enumerable ≠ some true ∧
        d.configurable ≠ some true ∧ d.writable ≠ some false)

theorem arrayLaw_of_fits {w : World σ} {o : ObjectId} {obj : Object} {e : Elements}
    (ho : w.machine.store.get? o = some obj) (ha : obj.kind = .array e) (hs : obj.Sound) (hf : e.Fits) :
    ArrayLaw o w e.length := by
  have own {i : ℕ} (hi : i < maxArrayLength) : w.machine.store.own? o (ofIndex i) = (e.get? i).map .plain := by
    rw [Store.own?_of_get? ho, hs.own?_ofIndex ha hi]
  have exotic : PropertyKey.exotic? "length" = some .length := rfl
  -- The array after a definition that its elements accept is such an array again.
  have after {env : Env σ} {w' : World σ} {k : PropertyKey} {x : ExoticKey} {d : Descriptor} (hx : k.exotic? = some x)
      (h : Act.define o k d env w = .ok true w') :
      ∃ e', e.define? x d = some e' ∧ w'.machine.store.LengthIs o e'.length ∧
        ∀ i < maxArrayLength, w'.machine.store.own? o (ofIndex i) = (e'.get? i).map .plain := by
    obtain ⟨e', he, ho', hs'⟩ := hs.define_array ho ha hx h
    have hf' : e'.Fits := hf.define? (fun i hi => PropertyKey.lt_of_exotic? (hi ▸ hx)) he
    refine ⟨e', he, Store.lengthIs_of_array ho' rfl hf', ?_⟩
    intro i hi
    rw [Store.own?_of_get? ho', hs'.own?_ofIndex rfl hi]
  constructor
  · exact Store.lengthIs_of_array ho ha hf
  · intro i hi hown
    rw [own hi] at hown
    cases hv : e.get? i with
    | none => rw [hv] at hown; exact absurd rfl hown
    | some v => exact hf.index_lt hi hv
  · intro obj' ho'
    cases ho.symm.trans ho'
    have array : obj.kind.isArray = true := by rw [ha]; rfl
    exact ⟨hs.apart array rfl, fun i hi => hs.apart array (exotic?_ofIndex hi)⟩
  · intro env w' i d hi h
    obtain ⟨e', he, length, own'⟩ := after (exotic?_ofIndex hi) h
    obtain ⟨v, rfl⟩ := Elements.defineElement?_cases he
    rw [Elements.length_set] at length
    refine ⟨length, ?_⟩
    intro j hj hne
    rw [own' j hj, own hj, Elements.get?_set_ne e v hne]
  · intro env w' d v hv h
    obtain ⟨e', he, length, own'⟩ := after exotic h
    rcases Elements.defineLength?_cases he with ⟨hn, -⟩ | ⟨u, m, hu, natural, -, rfl⟩
    · rw [hv] at hn
      cases hn
    · cases hv.symm.trans hu
      refine ⟨m, natural, length, ?_⟩
      intro i hi
      rw [own' i hi, own hi, Elements.get?_setLength]
      split <;> rfl
  · intro env d v hd hv
    have data : d.isData = true := by simp [Descriptor.isData, hv]
    have accessor : d.isAccessor = false := hd.not_accessor data
    have granted : (∃ w', Act.define o "length" d env w = .ok true w') ↔ ∃ e', e.defineLength? d = some e' := by
      constructor
      · rintro ⟨w', h⟩
        obtain ⟨e', he, -⟩ := after exotic h
        exact ⟨e', he⟩
      · rintro ⟨e', he⟩
        exact ⟨_, (define_array_eq_true ho ha exotic).mpr ⟨e', he, rfl⟩⟩
    rw [granted, Elements.defineLength?_isSome_iff hv]
    simp only [accessor, true_and]

/-! ## Any run -/

/-- After any run an array has a length, and the law of arrays of that length. -/
theorem array_law {host : Host σ} (hh : host.Public R) (hR : R.raw = false) (config : Config) (budget : Budget)
    {w : World σ} (hw : w.machine.Reachable R) {o : ObjectId} (ha : w.machine.store.isArray (.object o) = true)
    {x : Act σ α} (hx : x.Public R) : ∃ n, ArrayLaw o (x.run host config budget w).world n := by
  have hrun := run_steps hh hx config budget w
  have reachable : (x.run host config budget w).world.machine.Reachable R := hw.trans hrun
  obtain ⟨obj, e, ho, hk⟩ := hrun.isArray ha
  exact ⟨e.length, arrayLaw_of_fits ho hk (reachable.sound hR ho) (reachable.elementsFit ho e hk)⟩

theorem Store.LengthIs.unique {s : Store} {o : ObjectId} {m n : ℕ} (h : s.LengthIs o m) (h' : s.LengthIs o n) :
    m = n := by
  obtain ⟨v, hv, x, rfl, hx⟩ := h
  obtain ⟨v', hv', x', rfl, hx'⟩ := h'
  cases hv.symm.trans hv'
  have same := hx.symm.trans hx'
  exact_mod_cast Option.some.inj same

/-- An array of one element has length 5 after an assignment at index 4, past its end. -/
theorem an_array_grows_over_a_gap :
    let w : World Unit := ⟨{ store := Realm.store.add { kind := .array (.ofValues #[.null]) } }, ()⟩
    let x : Act Unit Bool := Act.set Realm.store.fresh (ofIndex 4) .undefined (.object Realm.store.fresh)
    w.machine.Reachable .strict ∧ w.machine.store.isArray (.object Realm.store.fresh) = true ∧
      ArrayLaw Realm.store.fresh (x.run idle {} ⟨64, 64⟩ w).world 5 := by
  intro w x
  have reachable : w.machine.Reachable .strict := .single (.create {} (.array #[.null] none))
  have array : w.machine.store.isArray (.object Realm.store.fresh) = true := by decide
  obtain ⟨n, law⟩ := array_law (fun _ _ _ => .ret _) rfl {} ⟨64, 64⟩ reachable array
    (Act.Public.set Realm.store.fresh (ofIndex 4) .undefined (.object Realm.store.fresh))
  have shown : (x.run idle {} ⟨64, 64⟩ w).world.machine.store.LengthIs Realm.store.fresh 5 :=
    ⟨.number (.ofNat 5), by decide, Value.isNatural_ofNat (by decide)⟩
  cases shown.unique law.length
  exact ⟨reachable, array, law⟩

end EcmaObjects
