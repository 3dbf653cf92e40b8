/-
  EcmaObjects.Proofs.ElementDefinition — array elements defined beside ordinary properties.

  An array does not keep attributes with its elements: it takes a definition at an index if
  that asks for no accessor and gives no attribute as false (`Descriptor.FitsElement`), and
  shows the element as plain data then. A property table would fill the attributes that were not
  given: from the property that is there, or with false if there is none. The value comes out
  the same in both.
  - `elements_agree_with_tables_iff`: what the array shows is what a table holds, and it refuses
    whatever a table would not hold as plain data, exactly if the element is there, or all
    attributes are given as true, or the definition is one that the array refuses anyway.
  - `a_gap_takes_an_incomplete_definition`: at a gap the attributes that are not given count as
    true.
-/

import EcmaObjects.Proofs.Array
import EcmaObjects.Proofs.Validation

namespace EcmaObjects

variable {R : Rules} {σ : Type}

/-! ## What a definition asks of an element -/

namespace Descriptor

/-- No accessor function is asked for, and no attribute as false. -/
def FitsElement (d : Descriptor) : Prop :=
  d.isAccessor = false ∧ d.writable ≠ some false ∧ d.enumerable ≠ some false ∧ d.configurable ≠ some false

/-- All attributes are given, as true. -/
def GivesAttributes (d : Descriptor) : Prop :=
  d.writable = some true ∧ d.enumerable = some true ∧ d.configurable = some true

theorem fitsElement_of_givesAttributes {d : Descriptor} (h : d.GivesAttributes) (ha : d.isAccessor = false) :
    d.FitsElement := by
  obtain ⟨writable, enumerable, configurable⟩ := h
  refine ⟨ha, ?_, ?_, ?_⟩
  · rw [writable]
    decide
  · rw [enumerable]
    decide
  · rw [configurable]
    decide

def elementValue (d : Descriptor) (current : Option Value) : Value := (d.value <|> current).getD .undefined

end Descriptor

theorem Elements.defineElement?_eq_some {e e' : Elements} {i : ℕ} {d : Descriptor} :
    e.defineElement? i d = some e' ↔ d.FitsElement ∧ e' = e.set i (d.elementValue (e.get? i)) := by
  unfold defineElement? Descriptor.FitsElement
  split
  · rename_i refused
    refine ⟨nofun, fun ⟨⟨accessor, writable, enumerable, configurable⟩, _⟩ => ?_⟩
    simp [accessor, writable, enumerable, configurable] at refused
  · rename_i accepted
    simp only [Bool.or_eq_true, beq_iff_eq, not_or, Bool.not_eq_true] at accepted
    obtain ⟨⟨⟨accessor, writable⟩, enumerable⟩, configurable⟩ := accepted
    rw [Option.some.injEq, eq_comm]
    exact ⟨fun h => ⟨⟨accessor, writable, enumerable, configurable⟩, h⟩, fun h => h.2⟩

/-! ## What a table makes of it -/

namespace Attributes

/-- The property that a table holds after a definition, where it held plain data or nothing. -/
def afterPlain (current : Option Value) (d : Descriptor) : Attributes :=
  match current with
  | none => create d
  | some v => (data v true true true).redefine d

variable {current : Option Value} {d : Descriptor}

theorem afterPlain_of_data (h : d.isAccessor = false) :
    afterPlain current d = data (d.elementValue current) (d.writable.getD current.isSome)
      (d.enumerable.getD current.isSome) (d.configurable.getD current.isSome) := by
  cases current with
  | none =>
    rw [afterPlain, create, if_neg (by rw [h]; decide), Descriptor.elementValue]
    cases d.value <;> rfl
  | some v =>
    rw [afterPlain, redefine, if_neg (by rw [h]; decide), Descriptor.elementValue]
    cases d.value <;> rfl

theorem isAccessor_afterPlain : (afterPlain current d).isAccessor = d.isAccessor := by
  cases h : d.isAccessor with
  | false =>
    rw [afterPlain_of_data h]
    rfl
  | true =>
    cases current with
    | none =>
      rw [afterPlain, create, if_pos h]
      rfl
    | some v =>
      rw [afterPlain, redefine, if_pos h]
      rfl

theorem descriptor_data_plain_iff {v : Value} {w e c : Bool} :
    (∃ u, (data v w e c).descriptor = .plain u) ↔ w = true ∧ e = true ∧ c = true := by
  simp [descriptor, Descriptor.plain, Descriptor.data]

/-- Which definitions leave plain data: of a property that is there those that an element takes,
    of a new one those of them that give all attributes. -/
theorem afterPlain_plain_iff : (∃ v, (afterPlain current d).descriptor = .plain v) ↔
    d.FitsElement ∧ (current ≠ none ∨ d.GivesAttributes) := by
  cases h : d.isAccessor with
  | true =>
    have kind : (afterPlain current d).isAccessor = true := isAccessor_afterPlain.trans h
    constructor
    · rintro ⟨v, plain⟩
      cases hp : afterPlain current d with
      | data => rw [hp] at kind; cases kind
      | accessor => rw [hp] at plain; cases plain
    · rintro ⟨⟨accessor, -⟩, -⟩
      rw [h] at accessor
      cases accessor
  | false =>
    have kept (b : Option Bool) : b.getD true = true ↔ b ≠ some false := by rcases b with _ | _ | _ <;> simp
    have given (b : Option Bool) : b.getD false = true ↔ b = some true := by rcases b with _ | _ | _ <;> simp
    rw [afterPlain_of_data h, descriptor_data_plain_iff]
    cases current with
    | none =>
      rw [Option.isSome_none, given, given, given]
      constructor
      · intro gives
        exact ⟨Descriptor.fitsElement_of_givesAttributes gives h, Or.inr gives⟩
      · rintro ⟨-, there | gives⟩
        · exact absurd rfl there
        · exact gives
    | some v =>
      rw [Option.isSome_some, kept, kept, kept]
      constructor
      · intro fits
        exact ⟨⟨h, fits⟩, Or.inl (Option.some_ne_none v)⟩
      · intro fits
        exact fits.1.2

end Attributes

theorem PropertyTable.define?_plain {t : PropertyTable} {k : PropertyKey} {current : Option Value} {d : Descriptor}
    (hk : t.get? k = current.map .plain) (hd : d.Unmixed) :
    t.define? true k d = some (t.insert k (Attributes.afterPlain current d).descriptor) := by
  have held : t.get? k = (current.map fun v => Attributes.data v true true true).map Attributes.descriptor := by
    rw [hk]
    cases current <;> rfl
  rw [define?_eq true held hd]
  cases current <;> rfl

/-! ## The two compared -/

theorem Act.define_eq_false {o : ObjectId} {k : PropertyKey} {d : Descriptor} {env : Env σ} {w : World σ}
    (h : ¬ ∃ w', define o k d env w = .ok true w') : define o k d env w = .ok false w := by
  rw [define_apply] at h ⊢
  cases hs : w.machine.store.define? o k d with
  | none => rfl
  | some s => exact absurd ⟨_, by rw [hs]⟩ h

/-- The definition does to an array what it does to a table, which holds `c` after it: the array
    shows that if it grants the definition, and grants it only for plain data. -/
structure Act.AgreesWith (env : Env σ) (w : World σ) (o : ObjectId) (k : PropertyKey) (d c : Descriptor) : Prop where
  granted {w' : World σ} : define o k d env w = .ok true w' → w'.machine.store.own? o k = some c
  refused : (∀ v, c ≠ .plain v) → define o k d env w = .ok false w

section
variable {env : Env σ} {w w' : World σ} {o : ObjectId} {obj : Object} {e : Elements} {k : PropertyKey} {i : ℕ}
  {d : Descriptor}

theorem define_element_iff (ho : w.machine.store.get? o = some obj) (ha : obj.kind = .array e)
    (hk : k.exotic? = some (.index i)) : (∃ w', Act.define o k d env w = .ok true w') ↔ d.FitsElement := by
  constructor
  · rintro ⟨w', h⟩
    obtain ⟨e', he, -⟩ := (define_array_eq_true ho ha hk).mp h
    exact (Elements.defineElement?_eq_some.mp he).1
  · intro fits
    exact ⟨_, (define_array_eq_true ho ha hk).mpr ⟨_, Elements.defineElement?_eq_some.mpr ⟨fits, rfl⟩, rfl⟩⟩

theorem own?_of_define_element (ho : w.machine.store.get? o = some obj) (ha : obj.kind = .array e) (hs : obj.Sound)
    (hk : k.exotic? = some (.index i)) (h : Act.define o k d env w = .ok true w') :
    w'.machine.store.own? o k = some (.plain (d.elementValue (e.get? i))) := by
  obtain ⟨e', he, there, sound⟩ := hs.define_array ho ha hk h
  obtain ⟨-, rfl⟩ := Elements.defineElement?_eq_some.mp he
  rw [Store.own?_of_get? there, sound.own?_exotic rfl hk, Elements.own?, Elements.get?_set_self]
  rfl

theorem agreesWith_afterPlain_iff (ho : w.machine.store.get? o = some obj) (ha : obj.kind = .array e) (hs : obj.Sound)
    (hk : k.exotic? = some (.index i)) :
    Act.AgreesWith env w o k d (Attributes.afterPlain (e.get? i) d).descriptor ↔
      e.get? i ≠ none ∨ d.GivesAttributes ∨ ¬ d.FitsElement := by
  have plain_iff : (∃ v, (Attributes.afterPlain (e.get? i) d).descriptor = .plain v) ↔
      d.FitsElement ∧ (e.get? i ≠ none ∨ d.GivesAttributes) := Attributes.afterPlain_plain_iff
  by_cases fits : d.FitsElement
  · -- The array grants this, so the two agree if and only if the table holds plain data.
    obtain ⟨w', granted⟩ := (define_element_iff ho ha hk).mpr fits
    constructor
    · intro agrees
      have plain : ∃ v, (Attributes.afterPlain (e.get? i) d).descriptor = .plain v := by
        by_contra other
        rw [agrees.refused fun v plain => other ⟨v, plain⟩] at granted
        cases granted
      exact (plain_iff.mp plain).2.imp_right Or.inl
    · intro reason
      obtain ⟨v, plain⟩ := plain_iff.mpr ⟨fits, reason.imp_right fun h => h.resolve_right (not_not_intro fits)⟩
      have value : v = d.elementValue (e.get? i) := by
        rw [Attributes.afterPlain_of_data fits.1] at plain
        exact (Option.some.inj (congrArg Descriptor.value plain)).symm
      refine ⟨fun h => ?_, fun other => absurd plain (other v)⟩
      rw [own?_of_define_element ho ha hs hk h, plain, value]
  · have refused : Act.define o k d env w = .ok false w := Act.define_eq_false (mt (define_element_iff ho ha hk).mp fits)
    refine ⟨fun _ => Or.inr (Or.inr fits), fun _ => ⟨fun h => ?_, fun _ => refused⟩⟩
    rw [refused] at h
    cases h

end

/-- What an array makes of a definition of the element at `k`, where a table that has the same
    there holds `c` after it. -/
structure ElementLaw (env : Env σ) (w : World σ) (o : ObjectId) (k : PropertyKey) (d c : Descriptor) : Prop where
  granted_iff : (∃ w', Act.define o k d env w = .ok true w') ↔ d.FitsElement
  refused : ¬ d.FitsElement → Act.define o k d env w = .ok false w
  shows {w' : World σ} : Act.define o k d env w = .ok true w' →
    ∃ v, c.value = some v ∧ w'.machine.store.own? o k = some (.plain v)
  agrees_iff : Act.AgreesWith env w o k d c ↔
    w.machine.store.own? o k ≠ none ∨ d.GivesAttributes ∨ ¬ d.FitsElement

/-- Elements are defined as the properties of a table are, exactly if the element is there, or
    the definition gives all attributes as true, or the array refuses it. -/
theorem elements_agree_with_tables_iff (hR : R.raw = false) {w : World σ} (hw : w.machine.Reachable R) {o : ObjectId}
    (ha : w.machine.store.isArray (.object o) = true) {k : PropertyKey} {i : ℕ} (hk : k.exotic? = some (.index i))
    {d : Descriptor} (hd : d.Unmixed) (env : Env σ) {t : PropertyTable} (ht : t.get? k = w.machine.store.own? o k) :
    ∃ t' c, t.define? true k d = some t' ∧ t'.get? k = some c ∧ ElementLaw env w o k d c := by
  obtain ⟨obj, e, ho, kind⟩ := Machine.Run.isArray (R := R) .refl ha
  have sound := hw.sound hR ho
  have current : w.machine.store.own? o k = (e.get? i).map .plain := by
    rw [Store.own?_of_get? ho, sound.own?_exotic kind hk]
    rfl
  have defined := PropertyTable.define?_plain (ht.trans current) hd
  have granted_iff : (∃ w', Act.define o k d env w = .ok true w') ↔ d.FitsElement := define_element_iff ho kind hk
  refine ⟨_, (Attributes.afterPlain (e.get? i) d).descriptor, defined, ?_, granted_iff, ?_, ?_, ?_⟩
  · rw [PropertyTable.get?_insert, if_pos rfl]
  · intro unfit
    exact Act.define_eq_false (mt granted_iff.mp unfit)
  · intro w' h
    have fits := granted_iff.mp ⟨w', h⟩
    refine ⟨_, ?_, own?_of_define_element ho kind sound hk h⟩
    rw [Attributes.afterPlain_of_data fits.1]
    rfl
  · rw [agreesWith_afterPlain_iff ho kind sound hk, current, ne_eq, ne_eq, Option.map_eq_none_iff]

/-- An element that is there keeps its attributes where a definition is silent about them, as in a table. -/
theorem an_element_takes_an_incomplete_definition :
    let w : World Unit := ⟨{ store := Realm.store.add { kind := .array (.ofValues #[.null]) } }, ()⟩
    let o := Realm.store.fresh
    let d : Descriptor := .onlyValue (.boolean true)
    let t : PropertyTable := ⟨[("0", .plain .null)]⟩
    let env : Env Unit := .ofHost idle {} ⟨64, 64⟩
    w.machine.Reachable .strict ∧ w.machine.store.isArray (.object o) = true ∧
      PropertyKey.exotic? "0" = some (.index 0) ∧ d.Unmixed ∧ t.get? "0" = w.machine.store.own? o "0" ∧
      ∃ t' c, t.define? true "0" d = some t' ∧ t'.get? "0" = some c ∧ ElementLaw env w o "0" d c ∧
        Act.AgreesWith env w o "0" d c := by
  intro w o d t env
  have reachable : w.machine.Reachable .strict := .single (.create {} (.array #[.null] none))
  have array : w.machine.store.isArray (.object o) = true := by decide
  have index : PropertyKey.exotic? "0" = some (.index 0) := by decide
  have same : t.get? "0" = w.machine.store.own? o "0" := by decide
  have unmixed : d.Unmixed := rfl
  obtain ⟨t', c, defined, held, law⟩ := elements_agree_with_tables_iff rfl reachable array index unmixed env same
  exact ⟨reachable, array, index, unmixed, same, t', c, defined, held, law, law.agrees_iff.mpr (Or.inl (by decide))⟩

/-- At a gap an array takes a value by itself for plain data, which a table holds with no permissions. -/
theorem a_gap_takes_an_incomplete_definition :
    let w : World Unit := ⟨{ store := Realm.store.add { kind := .array (.ofValues #[]) } }, ()⟩
    let o := Realm.store.fresh
    let d : Descriptor := .onlyValue (.boolean true)
    let x : Act Unit Bool := Act.define o "0" d
    w.machine.Reachable .strict ∧ d.Unmixed ∧ w.machine.store.own? o "0" = none ∧
      (PropertyTable.define? {} true "0" d).bind (·.get? "0") = some (.data (.boolean true) false false false) ∧
      ∃ w', x.run idle {} ⟨64, 64⟩ w = .ok true w' ∧ w'.machine.store.own? o "0" = some (.plain (.boolean true)) := by
  intro w o d x
  have reachable : w.machine.Reachable .strict := .single (.create {} (.array #[] none))
  exact ⟨reachable, rfl, by decide, by decide, _, rfl, by decide⟩

end EcmaObjects
