/-
  EcmaObjects.Proofs.Validation — a definition as ValidateAndApplyPropertyDescriptor states it.

  A property has the attributes of one kind, data or accessor (`Attributes`). The algorithm
  looks at the property that is there: `Attributes.forbids` says what it refuses,
  `Attributes.redefine` and `Attributes.create` what it leaves. The code takes it apart
  otherwise: it judges by `Descriptor.admits`, converts the kind, lays the fields over and
  fills in the defaults. `Act.define_validates_and_applies` says that the two agree, for every
  definition that asks for one kind of property, at every key that is neither an array's nor
  a string's own. The property that is there always has the attributes of its kind
  (`Machine.Reachable.complete`, `Object.Complete.current`), if all definitions are of this
  sort.
-/

import EcmaObjects.Proofs.Permanent

namespace EcmaObjects

variable {σ : Type}

/-! ## The algorithm -/

/-- Equality as values: every NaN is one value, the zeros are two, a symbol is its number. -/
def Value.isSame (v w : Value) : Bool := v.essence == w.essence

theorem Value.same_eq_isSame (v w : Value) : v.same w = v.isSame w := by
  rw [Bool.eq_iff_iff, same_iff, isSame, beq_iff_eq]

/-- A property with all the attributes of its kind. -/
inductive Attributes where
  | data (value : Value) (writable enumerable configurable : Bool)
  | accessor (getter setter : Value) (enumerable configurable : Bool)
  deriving DecidableEq, Repr

namespace Attributes

def descriptor : Attributes → Descriptor
  | data v w e c => .data v w e c
  | accessor g s e c => { getter := some g, setter := some s, enumerable := some e, configurable := some c }

def isAccessor : Attributes → Bool
  | data .. => false
  | accessor .. => true

def enumerable : Attributes → Bool
  | data _ _ e _ | accessor _ _ e _ => e

def configurable : Attributes → Bool
  | data _ _ _ c | accessor _ _ _ c => c

/-- What forbids to redefine a property: nothing, if it is configurable. -/
def forbids (p : Attributes) (d : Descriptor) : Bool :=
  !p.configurable &&
    (d.configurable == some true ||
      d.enumerable.any (· != p.enumerable) ||
      ((d.isData || d.isAccessor) && d.isAccessor != p.isAccessor) ||
      match p with
      | accessor g s _ _ => d.getter.any (!·.isSame g) || d.setter.any (!·.isSame s)
      | data v w _ _ => !w && (d.writable == some true || d.value.any (!·.isSame v)))

/-- A new property: the given fields, the others at their defaults. -/
def create (d : Descriptor) : Attributes :=
  if d.isAccessor then
    accessor (d.getter.getD .undefined) (d.setter.getD .undefined) (d.enumerable.getD false) (d.configurable.getD false)
  else data (d.value.getD .undefined) (d.writable.getD false) (d.enumerable.getD false) (d.configurable.getD false)

/-- A property redefined: the given fields replace its own. A change of kind keeps only the shared attributes. -/
def redefine (p : Attributes) (d : Descriptor) : Attributes :=
  let enumerable := d.enumerable.getD p.enumerable
  let configurable := d.configurable.getD p.configurable
  match p with
  | data v w _ _ =>
    if d.isAccessor then accessor (d.getter.getD .undefined) (d.setter.getD .undefined) enumerable configurable
    else data (d.value.getD v) (d.writable.getD w) enumerable configurable
  | accessor g s _ _ =>
    if d.isData then data (d.value.getD .undefined) (d.writable.getD false) enumerable configurable
    else accessor (d.getter.getD g) (d.setter.getD s) enumerable configurable

end Attributes

/-- ValidateAndApplyPropertyDescriptor: whether the property is defined, and the property that is there then. -/
def validateAndApply (extensible : Bool) (current : Option Attributes) (d : Descriptor) : Bool × Option Attributes :=
  match current with
  | none => if extensible then (true, some (.create d)) else (false, none)
  | some p => if p.forbids d then (false, some p) else (true, some (p.redefine d))

namespace Attributes

open Descriptor (no_data_fields no_accessor_fields)

/-! ## Fields laid over -/

/-- Laid over a data property, a descriptor without accessor functions replaces the fields it gives. -/
theorem overlay_data (v : Value) (w e c : Bool) {d : Descriptor} (h : d.isAccessor = false) :
    (data v w e c).descriptor.overlay d =
      (data (d.value.getD v) (d.writable.getD w) (d.enumerable.getD e) (d.configurable.getD c)).descriptor := by
  obtain ⟨getter, setter⟩ := no_accessor_fields h
  simp only [Descriptor.overlay, descriptor, Descriptor.data, getter, setter, Option.orElse_eq_orElse,
    Option.orElse_eq_or, Option.or_some, Option.or_none]

theorem overlay_accessor (g s : Value) (e c : Bool) {d : Descriptor} (h : d.isData = false) :
    (accessor g s e c).descriptor.overlay d =
      (accessor (d.getter.getD g) (d.setter.getD s) (d.enumerable.getD e) (d.configurable.getD c)).descriptor := by
  obtain ⟨value, writable⟩ := no_data_fields h
  simp only [Descriptor.overlay, descriptor, value, writable, Option.orElse_eq_orElse, Option.orElse_eq_or,
    Option.or_some, Option.or_none]

/-! ## A new property -/

theorem complete_eq_create {d : Descriptor} (hd : d.Unmixed) : d.complete = (create d).descriptor := by
  unfold Descriptor.complete create
  cases ha : d.isAccessor with
  | true =>
    obtain ⟨value, writable⟩ := no_data_fields (hd.not_data ha)
    simp only [if_true, descriptor, value, writable, Option.orElse_eq_orElse, Option.orElse_eq_or, Option.or_some]
  | false =>
    obtain ⟨getter, setter⟩ := no_accessor_fields ha
    simp only [Bool.false_eq_true, if_false, descriptor, Descriptor.data, getter, setter, Option.orElse_eq_orElse,
      Option.orElse_eq_or, Option.or_some]

/-! ## A property redefined -/

/-- The conversion fills the fields of the new kind with defaults, so that the overlay need not know of kinds. -/
theorem merge_eq_redefine (p : Attributes) {d : Descriptor} (hd : d.Unmixed) :
    p.descriptor.merge d = (p.redefine d).descriptor := by
  cases p with
  | data v w e c =>
    have isData : (data v w e c).descriptor.isData = true := rfl
    have isAccessor : (data v w e c).descriptor.isAccessor = false := rfl
    cases ha : d.isAccessor with
    | true =>
      have switch : (data v w e c).descriptor.convert d = (accessor .undefined .undefined e c).descriptor := by
        rw [Descriptor.convert, isData, ha]
        rfl
      rw [Descriptor.merge, switch, overlay_accessor _ _ _ _ (hd.not_data ha), redefine, if_pos ha]
      rfl
    | false =>
      have stays : (data v w e c).descriptor.convert d = (data v w e c).descriptor := by
        rw [Descriptor.convert, isData, isAccessor, ha]
        rfl
      rw [Descriptor.merge, stays, overlay_data _ _ _ _ ha, redefine, if_neg (by rw [ha]; decide)]
      rfl
  | accessor g s e c =>
    have isData : (accessor g s e c).descriptor.isData = false := rfl
    have isAccessor : (accessor g s e c).descriptor.isAccessor = true := rfl
    cases hv : d.isData with
    | true =>
      have switch : (accessor g s e c).descriptor.convert d = (data .undefined false e c).descriptor := by
        rw [Descriptor.convert, isData, isAccessor, hv]
        rfl
      rw [Descriptor.merge, switch, overlay_data _ _ _ _ (hd.not_accessor hv), redefine, if_pos hv]
      rfl
    | false =>
      have stays : (accessor g s e c).descriptor.convert d = (accessor g s e c).descriptor := by
        rw [Descriptor.convert, isData, isAccessor, hv]
        rfl
      rw [Descriptor.merge, stays, overlay_accessor _ _ _ _ hv, redefine, if_neg (by rw [hv]; decide)]
      rfl

/-! ## What is refused -/

theorem keeps_eq (u : Value) (wanted : Option Value) :
    Descriptor.keeps (some u) wanted = !wanted.any (!·.isSame u) := by
  cases wanted with
  | none => rfl
  | some v => simp [Descriptor.keeps, Value.same_eq_isSame, Value.isSame, Bool.beq_comm]

/-- At a property that is not configurable a definition is judged by what it asks for, in the
    order of the shared attributes, the kind, and the fields of that kind. -/
theorem admits_eq_not_forbids (p : Attributes) {d : Descriptor} (hd : d.Unmixed) :
    p.descriptor.admits d = !p.forbids d := by
  have configurable : p.descriptor.configurable = some p.configurable := by cases p <;> rfl
  have enumerable : (d.enumerable.isSome && d.enumerable != p.descriptor.enumerable) =
      d.enumerable.any (· != p.enumerable) := by cases p <;> cases d.enumerable <;> rfl
  unfold Descriptor.admits forbids
  rw [configurable, enumerable]
  cases p.configurable
  case true => rfl
  cases d.configurable == some true
  case true => rfl
  cases d.enumerable.any (· != p.enumerable)
  case true => rfl
  cases p with
  | data v w e c =>
    have current : (data v w e c).descriptor = .data v w e c := rfl
    rw [current]
    cases ha : d.isAccessor with
    | true => rw [hd.not_data ha]; rfl
    | false =>
      cases hv : d.isData with
      | true =>
        cases w with
        | true => rfl
        | false =>
          show (d.writable != some true && Descriptor.keeps (some v) d.value) = _
          rw [keeps_eq]
          exact (Bool.not_or _ _).symm
      | false =>
        obtain ⟨value, writable⟩ := no_data_fields hv
        rw [value, writable]
        cases w <;> rfl
  | accessor g s e c =>
    cases hv : d.isData with
    | true => rw [hd.not_accessor hv]; rfl
    | false =>
      cases ha : d.isAccessor with
      | true =>
        show (Descriptor.keeps (some g) d.getter && Descriptor.keeps (some s) d.setter) = _
        rw [keeps_eq, keeps_eq]
        exact (Bool.not_or _ _).symm
      | false =>
        obtain ⟨getter, setter⟩ := no_accessor_fields ha
        rw [getter, setter]
        rfl

end Attributes

/-! ## Stored properties have all attributes -/

/-- Every stored property has the attributes of its kind, all of them and no others. -/
def Object.Complete (obj : Object) : Prop :=
  ∀ k d, obj.properties.get? k = some d → ∃ p : Attributes, d = p.descriptor

theorem Object.Complete.step {obj obj' : Object} (hs : obj.Complete) (h : obj.Step .strict obj') : obj'.Complete := by
  rcases h.define_or_frame rfl with ⟨k, d, ha, hd⟩ | ⟨-, ht⟩
  · have unmixed : d.Unmixed := ha.resolve_left Bool.false_ne_true
    rcases define?_cases hd with ⟨e, e', x, -, -, -, rfl⟩ | ⟨t, x, c, -, -, -, -, rfl⟩ | ⟨-, -, t, ht, rfl⟩
    · exact hs
    · exact hs
    · refine PropertyTable.all_of_define? ht ⟨_, Attributes.complete_eq_create unmixed⟩ ?_ hs
      rintro c ⟨p, rfl⟩
      exact ⟨_, p.merge_eq_redefine unmixed⟩
  · exact fun k d hg => hs k d (ht ▸ hg)

/-- A complete property is the one that it asks for itself. -/
theorem Object.complete_of_entries {obj : Object}
    (h : ∀ e ∈ obj.properties.entries, e.2 = (Attributes.create e.2).descriptor) : obj.Complete :=
  fun _ _ hg => ⟨_, h _ (PropertyTable.mem_of_get? hg)⟩

theorem Object.Born.complete {obj : Object} (h : obj.Born) : obj.Complete := by
  apply Object.complete_of_entries
  cases h with
  | plain | array => exact fun e he => absurd he List.not_mem_nil
  | function f p =>
    intro e he
    rcases List.mem_cons.mp he with rfl | he
    · rfl
    · cases List.mem_singleton.mp he
      rfl
  | error t message p =>
    intro e he
    cases List.mem_singleton.mp he
    rfl

theorem Realm.objects_complete {obj : Object} (h : obj ∈ Realm.objects) : obj.Complete := by
  have all : ∀ obj ∈ Realm.objects, ∀ e ∈ obj.properties.entries,
      e.2 = (Attributes.create e.2).descriptor := by decide
  exact Object.complete_of_entries (all obj h)

theorem Machine.Reachable.complete {m : Machine} (h : m.Reachable .strict) {o : ObjectId} {obj : Object}
    (ho : m.store.get? o = some obj) : obj.Complete :=
  h.all (fun _ => Realm.objects_complete) (fun _ hb => hb.complete) (fun _ _ hs hp => hp.step hs) ho

/-! ## Tables and objects -/

/-- A definition in a table is what the algorithm says. -/
theorem PropertyTable.define?_eq {t : PropertyTable} {k : PropertyKey} {current : Option Attributes} {d : Descriptor}
    (extensible : Bool) (hk : t.get? k = current.map Attributes.descriptor) (hd : d.Unmixed) :
    t.define? extensible k d =
      match validateAndApply extensible current d with
      | (true, some p) => some (t.insert k p.descriptor)
      | _ => none := by
  unfold define? validateAndApply
  rw [hk]
  cases current with
  | none =>
    rw [Attributes.complete_eq_create hd]
    cases extensible <;> rfl
  | some p =>
    simp only [Option.map_some, Attributes.admits_eq_not_forbids p hd, Attributes.merge_eq_redefine p hd]
    cases p.forbids d <;> rfl

/-- Neither as an array nor as a string wrapper has the object a say at the key. -/
def Object.OrdinaryAt (obj : Object) (k : PropertyKey) : Prop :=
  (obj.kind.isArray = true → k.exotic? = none) ∧ obj.exotic? k = none

theorem Object.own?_of_ordinaryAt {obj : Object} {k : PropertyKey} (h : obj.OrdinaryAt k) :
    obj.own? k = obj.properties.get? k := by
  rw [own?, h.2]
  rfl

/-- At such a key every object is in a state that the algorithm speaks of. -/
theorem Object.Complete.current {obj : Object} (h : obj.Complete) {k : PropertyKey} (hk : obj.OrdinaryAt k) :
    ∃ current : Option Attributes, obj.own? k = current.map Attributes.descriptor := by
  rw [own?_of_ordinaryAt hk]
  cases hg : obj.properties.get? k with
  | none => exact ⟨none, rfl⟩
  | some d =>
    obtain ⟨p, rfl⟩ := h k d hg
    exact ⟨some p, rfl⟩

theorem Object.define?_of_ordinaryAt {obj : Object} {k : PropertyKey} (h : obj.OrdinaryAt k) (d : Descriptor) :
    obj.define? k d = obj.defineOrdinary? k d := by
  obtain ⟨ha, hs⟩ := h
  unfold define?
  cases hk : obj.kind with
  | array e => rw [ha (by rw [hk]; rfl)]
  | string t =>
    cases t with
    | none => rfl
    | some t =>
      cases hx : k.exotic? with
      | none => rfl
      | some x =>
        have free : t.own? x = none := by simpa [exotic?, hk, hx] using hs
        simp only [free]
  | _ => rfl

theorem Object.own?_insert {obj : Object} {k : PropertyKey} (h : obj.OrdinaryAt k) (d : Descriptor) (k' : PropertyKey) :
    (obj.insert k d).own? k' = if k' = k then some d else obj.own? k' := by
  show (obj.exotic? k' <|> (obj.properties.insert k d).get? k') = _
  rw [PropertyTable.get?_insert]
  split
  · rename_i e
    rw [e, h.2]
    rfl
  · rfl

theorem validateAndApply_cases (extensible : Bool) (current : Option Attributes) (d : Descriptor) :
    validateAndApply extensible current d = (false, current) ∨
      ∃ p, validateAndApply extensible current d = (true, some p) := by
  unfold validateAndApply
  cases current with
  | none =>
    cases extensible with
    | true => exact Or.inr ⟨_, rfl⟩
    | false => exact Or.inl rfl
  | some p =>
    cases hf : p.forbids d with
    | true => exact Or.inl (by simp [hf])
    | false => exact Or.inr ⟨p.redefine d, by simp [hf]⟩

/-- What the definition of a property of one kind answers, and the property that it leaves. -/
theorem Act.define_validates_and_applies {w : World σ} {o : ObjectId} {obj : Object} {k : PropertyKey}
    {d : Descriptor} {current : Option Attributes} (env : Env σ) (ho : w.machine.store.get? o = some obj)
    (hk : obj.OrdinaryAt k) (hc : obj.own? k = current.map Attributes.descriptor) (hd : d.Unmixed) :
    ∃ w' obj', define o k d env w = .ok (validateAndApply obj.extensible current d).1 w' ∧
      w'.machine.store.get? o = some obj' ∧
      obj'.own? k = (validateAndApply obj.extensible current d).2.map Attributes.descriptor ∧
      (∀ k', k' ≠ k → obj'.own? k' = obj.own? k') ∧
      obj' = { obj with properties := obj'.properties } ∧
      ∀ p, p ≠ o → w'.machine.store.get? p = w.machine.store.get? p := by
  have table : obj.properties.define? obj.extensible k d = _ :=
    PropertyTable.define?_eq obj.extensible (Object.own?_of_ordinaryAt hk ▸ hc) hd
  have defined : obj.define? k d = _ := Object.define?_of_ordinaryAt hk d
  rw [Object.defineOrdinary?, table] at defined
  rcases validateAndApply_cases obj.extensible current d with refused | ⟨p, granted⟩
  · rw [refused] at defined ⊢
    refine ⟨w, obj, ?_, ho, hc, fun _ _ => rfl, rfl, fun _ _ => rfl⟩
    have none : w.machine.store.define? o k d = none := by rw [Store.define?, ho, Option.bind_some, defined]; rfl
    rw [define_apply, none]
  · rw [granted] at defined ⊢
    have stored := Store.define?_eq_some.mpr ⟨obj, obj.insert k p.descriptor, ho, defined, rfl⟩
    refine ⟨_, obj.insert k p.descriptor, define_eq_true.mpr ⟨_, stored, rfl⟩, ?_, ?_, ?_, rfl, ?_⟩
    · rw [Store.get?_modify, if_pos rfl, ho]
      rfl
    · rw [Object.own?_insert hk, if_pos rfl]
      rfl
    · intro k' h
      rw [Object.own?_insert hk, if_neg h]
    · intro q h
      rw [Store.get?_modify, if_neg h]

/-- A hidden property that may be configured turns from data into an accessor and stays hidden. -/
theorem a_data_property_becomes_an_accessor :
    let obj : Object := { properties := ⟨[("x", .builtin .null)]⟩ }
    let w : World Unit := ⟨{ store := Realm.store.add obj }, ()⟩
    let env : Env Unit := .ofHost idle ⟨8⟩ ⟨64, 64⟩
    let d : Descriptor := { getter := some (.object ⟨25⟩) }
    w.machine.store.get? ⟨25⟩ = some obj ∧ obj.OrdinaryAt "x" ∧
      obj.own? "x" = some (Attributes.data .null true false true).descriptor ∧ d.Unmixed ∧
      ∃ w' obj', Act.define ⟨25⟩ "x" d env w = .ok true w' ∧ w'.machine.store.get? ⟨25⟩ = some obj' ∧
        obj'.own? "x" = some (Attributes.accessor (.object ⟨25⟩) .undefined false true).descriptor := by
  intro obj w env d
  have ho : w.machine.store.get? ⟨25⟩ = some obj := rfl
  have ordinary : obj.OrdinaryAt "x" := ⟨by decide, by decide⟩
  have current : obj.own? "x" = (some (Attributes.data .null true false true)).map Attributes.descriptor := by decide
  have unmixed : d.Unmixed := rfl
  obtain ⟨w', obj', defined, there, left, -⟩ := Act.define_validates_and_applies env ho ordinary current unmixed
  exact ⟨ho, ordinary, current, unmixed, w', obj', defined, there, left⟩

end EcmaObjects
