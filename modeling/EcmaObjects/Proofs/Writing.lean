/-
  EcmaObjects.Proofs.Writing — a granted write changes the receiver, and of it one property.

  A write looks along the chain of its target, but what it changes is the receiver: unless a
  setter is found, it asks the receiver for a new value of the property that is there, or for a
  plain property if none is (`Object.Asks`). What the receiver accepts it holds then
  (`Object.Sound.own?_of_present`, `Object.Sound.own?_of_absent`), and no other key shows
  anything new, but the length of an array with its elements (`Object.define?_own_ne`).
  - `set_writes_the_receiver`: all of this of every write that is granted, for every target and
    receiver (`World.Wrote`), in every state that came about without raw insertions: those may
    put into the table of an array what a new element then hides.
  The length of an array is the one property that may not hold the written value itself: -0 is
  held as +0 (`Store.held`).
-/

import EcmaObjects.Proofs.Array
import EcmaObjects.Proofs.Chain
import EcmaObjects.Proofs.Key
import EcmaObjects.Proofs.Reading
import EcmaObjects.Proofs.Validation

namespace EcmaObjects

open PropertyKey (ofIndex)

variable {R : Rules} {σ : Type}

/-! ## The value held -/

/-- The value with +0 for -0. -/
def Value.unsigned : Value → Value
  | .number x => .number (if x.isZero then .zero else x)
  | v => v

theorem Value.IsNatural.unsigned {v : Value} {n : ℕ} (h : v.IsNatural n) (hn : n ≤ maxArrayLength) :
    v.unsigned = .number (.ofNat n) := by
  obtain ⟨x, rfl, hx⟩ := h
  have small : n < 2 ^ 53 := by
    unfold maxArrayLength at hn
    omega
  exact congrArg Value.number (Number.ofNat_of_value? hx small).symm

/-- The value that a property holds once `v` is written: of an array's length the Number without a sign on zero. -/
def Store.held (s : Store) (o : ObjectId) (k : PropertyKey) (v : Value) : Value :=
  if s.isArray (.object o) = true ∧ k = "length" then v.unsigned else v

theorem Store.isArray_of_get? {s : Store} {o : ObjectId} {obj : Object} (h : s.get? o = some obj) :
    s.isArray (.object o) = obj.kind.isArray := by
  simp [isArray, Value.object?, h]

theorem Store.held_of_free {s : Store} {o : ObjectId} {obj : Object} {k : PropertyKey} (ho : s.get? o = some obj)
    (hk : obj.own? k = none) (v : Value) : s.held o k v = v := by
  rw [held, if_neg]
  rintro ⟨array, rfl⟩
  exact Object.own?_length (isArray_of_get? ho ▸ array) hk

/-! ## What a write asks for -/

/-- What a write asks of its receiver: a new value for the property that is there, a plain property else. -/
inductive Object.Asks (obj : Object) (k : PropertyKey) (v : Value) : Descriptor → Prop
  | present {c : Descriptor} : obj.own? k = some c → c.isAccessor = false → c.writable ≠ some false →
      Asks obj k v (.onlyValue v)
  | absent : obj.own? k = none → Asks obj k v (.plain v)

namespace Act

variable {env : Env σ} {w w' : World σ} {k : PropertyKey} {v receiver : Value}

theorem assign_eq_true (h : assign receiver k v env w = .ok true w') :
    ∃ p obj d obj', receiver = .object p ∧ w.machine.store.get? p = some obj ∧ obj.Asks k v d ∧
      obj.define? k d = some obj' ∧ define p k d env w = .ok true w' ∧
      w' = { w with machine := { w.machine with store := w.machine.store.modify p fun _ => obj' } } := by
  cases receiver with
  | object p =>
    -- With or without a property that is there, the write is one definition.
    have granted {d : Descriptor} (hd : define p k d env w = .ok true w')
        (asks : ∀ obj, w.machine.store.get? p = some obj → obj.Asks k v d) :
        ∃ obj d obj', w.machine.store.get? p = some obj ∧ obj.Asks k v d ∧ obj.define? k d = some obj' ∧
          define p k d env w = .ok true w' ∧
          w' = { w with machine := { w.machine with store := w.machine.store.modify p fun _ => obj' } } := by
      obtain ⟨s, hs, rfl⟩ := define_eq_true.mp hd
      obtain ⟨obj, obj', ho, accepted, rfl⟩ := Store.define?_eq_some.mp hs
      exact ⟨obj, d, obj', ho, asks obj ho, accepted, hd, rfl⟩
    simp only [assign, getOwn, bind_apply, store_apply, pure_apply] at h
    cases hk : w.machine.store.own? p k with
    | none =>
      simp only [hk] at h
      obtain ⟨obj, d, obj', rest⟩ := granted h fun obj ho => .absent (by rw [← Store.own?_of_get? ho, hk])
      exact ⟨p, obj, d, obj', rfl, rest⟩
    | some c =>
      simp only [hk] at h
      split at h
      · cases h
      · rename_i writable
        simp only [Bool.or_eq_true, beq_iff_eq, not_or, Bool.not_eq_true] at writable
        obtain ⟨obj, d, obj', rest⟩ := granted h fun obj ho =>
          .present (by rw [← Store.own?_of_get? ho, hk]) writable.1 writable.2
        exact ⟨p, obj, d, obj', rfl, rest⟩
  | _ => cases h

theorem assign_of_set {o : ObjectId} {n : Nat} {r : Option Descriptor} (hr : w.machine.store.Reaches k o n r)
    (hd : ∀ d ∈ r, d.isData = true) (h : set o k v receiver env w = .ok true w') :
    assign receiver k v env w = .ok true w' := by
  rw [set_of_reaches hr] at h
  split at h
  · cases h
  -- What is found is data, so it can only let the write through to the receiver, or refuse it.
  cases r with
  | none => exact h
  | some d =>
    simp only [Option.elim_some, assignThrough, hd d rfl, if_true] at h
    split at h
    · cases h
    · exact h

end Act

/-! ## What the receiver holds then -/

theorem Descriptor.merge_onlyValue {c : Descriptor} (hc : c.isAccessor = false) (v : Value) :
    c.merge (.onlyValue v) = { c with value := some v } := by
  have asked : (onlyValue v).isAccessor = false := rfl
  have same : c.convert (.onlyValue v) = c := by simp [convert, hc, asked]
  rw [merge, same]
  rfl

theorem Text.writable_of_own? {t : Text} {x : ExoticKey} {c : Descriptor} (h : t.own? x = some c) :
    c.writable = some false := by
  cases x with
  | length =>
    cases h
    rfl
  | index i =>
    simp only [own?] at h
    split at h
    · cases h
      rfl
    · cases h

namespace Object.Sound

variable {s : Store} {o : ObjectId} {obj obj' : Object} {k : PropertyKey} {v : Value}

theorem own?_of_present (hs : obj.Sound) (ho : s.get? o = some obj) {c : Descriptor} (hk : obj.own? k = some c)
    (ha : c.isAccessor = false) (hw : c.writable ≠ some false) (h : obj.define? k (.onlyValue v) = some obj') :
    obj'.own? k = some { c with value := some (s.held o k v) } := by
  have array := Store.isArray_of_get? ho
  rcases define?_cases h with
    ⟨e, e', x, hkind, hx, he, rfl⟩ | ⟨t, x, c', hkind, hx, ht, -, -⟩ | ⟨hplain, hfree, t, ht, rfl⟩
  · rw [hs.own?_exotic hkind hx] at hk
    rw [(hs.define h).own?_exotic rfl hx]
    cases x with
    | length =>
      have length : k = "length" := PropertyKey.exotic?_inj hx rfl
      cases hk
      rcases Elements.defineLength?_cases he with ⟨hv, -⟩ | ⟨u, n, hu, natural, le, rfl⟩
      · cases hv
      · cases hu
        rw [Store.held, if_pos ⟨by rw [array, hkind]; rfl, length⟩, natural.unsigned le]
        rfl
    | index i =>
      have other : k ≠ "length" := by
        rintro rfl
        cases hx
      have set : e' = e.set i v := (Option.some.inj he).symm
      obtain ⟨u, -, rfl⟩ := Option.map_eq_some_iff.mp hk
      rw [Store.held, if_neg (fun both => other both.2), set, Elements.own?, Elements.get?_set_self]
      rfl
  · -- What a string shows is read-only.
    have shown : obj.own? k = some c' := own?_eq_some.mpr (Or.inl (by simp [exotic?, hkind, hx, ht]))
    cases hk.symm.trans shown
    exact absurd (Text.writable_of_own? ht) hw
  · have ordinary : obj.OrdinaryAt k := ⟨hplain, hfree⟩
    rw [own?_of_ordinaryAt ordinary] at hk
    have notLength : ¬ (s.isArray (.object o) = true ∧ k = "length") := by
      rintro ⟨isArray, rfl⟩
      cases hplain (array ▸ isArray)
    rcases PropertyTable.define?_cases ht with ⟨c', hc', -, rfl⟩ | ⟨hn, -, -⟩
    · cases hk.symm.trans hc'
      have stored := own?_insert ordinary (c.merge (.onlyValue v)) k
      rw [if_pos rfl] at stored
      rw [Store.held, if_neg notLength, ← Descriptor.merge_onlyValue ha]
      exact stored
    · rw [hk] at hn
      cases hn

theorem own?_of_absent (hs : obj.Sound) (hk : obj.own? k = none) (h : obj.define? k (.plain v) = some obj') :
    obj'.own? k = some (.plain v) := by
  rcases define?_cases h with
    ⟨e, e', x, hkind, hx, he, rfl⟩ | ⟨t, x, c', hkind, hx, ht, -, -⟩ | ⟨hplain, hfree, t, ht, rfl⟩
  · rw [hs.own?_exotic hkind hx] at hk
    rw [(hs.define h).own?_exotic rfl hx]
    cases x with
    | length => cases hk
    | index i =>
      have set : e' = e.set i v := (Option.some.inj he).symm
      rw [set, Elements.own?, Elements.get?_set_self]
      rfl
  · rw [own?_eq_some.mpr (Or.inl (by simp [exotic?, hkind, hx, ht] : obj.exotic? k = some c'))] at hk
    cases hk
  · have ordinary : obj.OrdinaryAt k := ⟨hplain, hfree⟩
    rw [own?_of_ordinaryAt ordinary] at hk
    rcases PropertyTable.define?_cases ht with ⟨c, hc, -, -⟩ | ⟨-, -, rfl⟩
    · rw [hk] at hc
      cases hc
    · have stored := own?_insert ordinary (Descriptor.plain v) k
      rw [if_pos rfl] at stored
      exact stored

theorem shows (hs : obj.Sound) (ho : s.get? o = some obj) {d : Descriptor} (asks : obj.Asks k v d)
    (h : obj.define? k d = some obj') :
    ∃ c, obj'.own? k = some c ∧ c.isAccessor = false ∧ c.value = some (s.held o k v) := by
  cases asks with
  | present hk ha hw => exact ⟨_, hs.own?_of_present ho hk ha hw h, ha, rfl⟩
  | absent hk =>
    rw [Store.held_of_free ho hk]
    exact ⟨_, hs.own?_of_absent hk h, rfl, rfl⟩

end Object.Sound

/-! ## Granted writes -/

/-- The world `w'` is `w` with `v` written on the property `k` of `p`, and nothing else. -/
structure World.Wrote (w : World σ) (p : ObjectId) (k : PropertyKey) (v : Value) (w' : World σ) : Prop where
  present {c : Descriptor} : w.machine.store.own? p k = some c →
    c.isAccessor = false ∧ w'.machine.store.own? p k = some { c with value := some (w.machine.store.held p k v) }
  absent : w.machine.store.own? p k = none → w'.machine.store.own? p k = some (.plain v)
  reads (env : Env σ) : Act.get p k (.object p) env w' = .ok (w.machine.store.held p k v) w'
  others {q : ObjectId} : q ≠ p → w'.machine.store.get? q = w.machine.store.get? q
  keys {k' : PropertyKey} : k' ≠ k → w'.machine.store.own? p k' = w.machine.store.own? p k' ∨
    (w.machine.store.isArray (.object p) = true ∧
      ((k' = "length" ∧ ∃ i < maxArrayLength, k = ofIndex i) ∨ (k = "length" ∧ ∃ i < maxArrayLength, k' = ofIndex i)))
  grows {i n : ℕ} : w.machine.store.isArray (.object p) = true → i < maxArrayLength → k = ofIndex i →
    w.machine.store.LengthIs p n → w'.machine.store.LengthIs p (max n (i + 1))
  /-- A length drops the elements from there on. -/
  truncates : w.machine.store.isArray (.object p) = true → k = "length" →
    ∃ m, v.IsNatural m ∧ w'.machine.store.LengthIs p m ∧
      ∀ i < maxArrayLength, w'.machine.store.own? p (ofIndex i) =
        if i < m then w.machine.store.own? p (ofIndex i) else none
  object {obj obj' : Object} : w.machine.store.get? p = some obj → w'.machine.store.get? p = some obj' →
    obj'.proto = obj.proto ∧ obj'.extensible = obj.extensible ∧ obj'.function = obj.function ∧
      obj'.iteration = obj.iteration
  rest : w' = { w with machine := { w.machine with store := w'.machine.store } }

section
variable {env : Env σ} {w w' : World σ} {k : PropertyKey} {v receiver : Value}

theorem Machine.Reachable.arrayLaw (hw : w.machine.Reachable R) (hR : R.raw = false) {p : ObjectId}
    (ha : w.machine.store.isArray (.object p) = true) : ∃ n, ArrayLaw p w n := by
  obtain ⟨obj, e, ho, hk⟩ := Machine.Run.isArray (R := R) .refl ha
  exact ⟨e.length, arrayLaw_of_fits ho hk (hw.sound hR ho) (hw.elementsFit ho e hk)⟩

theorem Act.assign_wrote (hR : R.raw = false) (hw : w.machine.Reachable R)
    (h : assign receiver k v env w = .ok true w') : ∃ p, receiver = .object p ∧ w.Wrote p k v w' := by
  obtain ⟨p, obj, d, obj', rfl, ho, asks, accepted, defined, rfl⟩ := assign_eq_true h
  have sound := hw.sound hR ho
  have array := Store.isArray_of_get? ho
  have there : (w.machine.store.modify p fun _ => obj').get? p = some obj' := Store.get?_modify_self ho _
  have before := Store.own?_of_get? ho
  have after := Store.own?_of_get? there
  have asked : d.value = some v := by cases asks <;> rfl
  refine ⟨p, rfl, ?_, ?_, ?_, ?_, ?_, ?_, ?_, ?_, rfl⟩
  · intro c hk
    rw [before] at hk
    rw [after]
    cases asks with
    | present hk' ha hc =>
      cases hk.symm.trans hk'
      exact ⟨ha, sound.own?_of_present ho hk ha hc accepted⟩
    | absent hn =>
      rw [hk] at hn
      cases hn
  · intro hn
    rw [before] at hn
    rw [after]
    cases asks with
    | present hk =>
      rw [hn] at hk
      cases hk
    | absent => exact sound.own?_of_absent hn accepted
  · intro env'
    obtain ⟨c, shown, data, holds⟩ := sound.shows ho asks accepted
    rw [Act.get_of_own ((after k).trans shown) data, holds]
    rfl
  · intro q hq
    exact (Store.get?_modify _ _ _ _).trans (if_neg hq)
  · intro k' hne
    rw [before, after, array]
    rcases Object.define?_own_ne accepted hne with same | ⟨⟨isArray, i, hi⟩, length⟩ | ⟨length, isArray, i, hi⟩
    · exact Or.inl same
    · exact Or.inr ⟨isArray, Or.inl ⟨length, i, PropertyKey.lt_of_exotic? hi, PropertyKey.eq_ofIndex hi⟩⟩
    · exact Or.inr ⟨isArray, Or.inr ⟨length, i, PropertyKey.lt_of_exotic? hi, PropertyKey.eq_ofIndex hi⟩⟩
  · rintro i n isArray hi rfl length
    obtain ⟨m, law⟩ := hw.arrayLaw hR isArray
    cases length.unique law.length
    exact (law.element hi defined).1
  · rintro isArray rfl
    obtain ⟨m, law⟩ := hw.arrayLaw hR isArray
    exact law.truncate asked defined
  · intro obj₁ obj₂ h₁ h₂
    cases ho.symm.trans h₁
    cases there.symm.trans h₂
    obtain ⟨proto, extensible, -⟩ := Object.define?_frame accepted
    obtain ⟨function, iteration⟩ := Object.define?_native accepted
    exact ⟨proto, extensible, function, iteration⟩

end

/-- A granted write that meets no accessor on the chain of its target has written the value on
    its receiver, which is an object, and has changed nothing else. -/
theorem set_writes_the_receiver (hR : R.raw = false) {env : Env σ} {w w' : World σ} (hw : w.machine.Reachable R)
    {o : ObjectId} {k : PropertyKey} {n : ℕ} {r : Option Descriptor} (hr : w.machine.store.Reaches k o n r)
    (hd : ∀ d ∈ r, d.isData = true) {v receiver : Value} (h : Act.set o k v receiver env w = .ok true w') :
    ∃ p, receiver = .object p ∧ w.Wrote p k v w' :=
  Act.assign_wrote hR hw (Act.assign_of_set hr hd h)

/-- A write of -0 to the length, through an object that has none, to an array of one element. -/
theorem an_array_is_emptied_through_another_object :
    let w : World Unit := ⟨{ store := (Realm.store.add {}).add { kind := .array (.ofValues #[.null]) } }, ()⟩
    let env : Env Unit := .ofHost idle {} ⟨64, 64⟩
    let v : Value := .number ⟨0x8000000000000000⟩
    let w' : World Unit := (Act.set ⟨25⟩ "length" v (.object ⟨26⟩) env w).world
    w.machine.Reachable .strict ∧ w.machine.store.Reaches "length" ⟨25⟩ 0 none ∧
      Act.set ⟨25⟩ "length" v (.object ⟨26⟩) env w = .ok true w' ∧ w.Wrote ⟨26⟩ "length" v w' ∧
      w'.machine.store.own? ⟨26⟩ "length" = some (.data (.number .zero) true false false) ∧
      w'.machine.store.own? ⟨26⟩ (ofIndex 0) = none := by
  intro w env v w'
  have first : Machine.Run .strict {} { store := Realm.store.add {} } := .single (.create {} (.plain none none rfl))
  have reachable : w.machine.Reachable .strict := first.tail (.create _ (.array #[.null] none))
  have free : w.machine.store.Reaches "length" ⟨25⟩ 0 none := .last (by decide) (by decide)
  have granted : Act.set ⟨25⟩ "length" v (.object ⟨26⟩) env w = .ok true w' := rfl
  obtain ⟨p, isObject, wrote⟩ := set_writes_the_receiver rfl reachable free (by simp) granted
  cases isObject
  exact ⟨reachable, free, granted, wrote, by decide, by decide⟩

end EcmaObjects
