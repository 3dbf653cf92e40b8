/-
  EcmaObjects.Proofs.Permanent — properties that are not configurable stay as they are.

  Without unchecked writes every stored property is data or an accessor, and the table of
  an array has no exotic key (`Object.Sound`). So a definition that an object accepts
  leaves of each of its properties what that property retains (`Object.Step.retained`), and
  any run does (`not_configurable_is_permanent`).
  The exception is a property that was itself defined as data and as an accessor: its own
  value passes for a change of kind, and a read-only value is overwritten
  (`a_mixed_property_is_overwritten`).
-/

import EcmaObjects.Proofs.Descriptor
import EcmaObjects.Proofs.Public

namespace EcmaObjects

open Descriptor

variable {R : Rules} {σ α : Type}

/-! ## What tables hold -/

theorem PropertyTable.mem_of_get? {t : PropertyTable} {k : PropertyKey} {d : Descriptor} (h : t.get? k = some d) :
    (k, d) ∈ t.entries := by
  obtain ⟨entries⟩ := t
  unfold get? at h
  induction entries with
  | nil => cases h
  | cons e rest ih =>
    rw [lookup_cons] at h
    split at h
    · rename_i he
      cases h
      rw [he]
      exact List.mem_cons_self
    · exact List.mem_cons_of_mem _ (ih h)

/-- What a new property has and a redefined one keeps, all properties of a table have. -/
theorem PropertyTable.all_of_define? {P : Descriptor → Prop} {t t' : PropertyTable} {extensible : Bool}
    {k : PropertyKey} {d : Descriptor} (h : t.define? extensible k d = some t') (new : P d.complete)
    (redefined : ∀ c, P c → P (c.merge d)) (ht : ∀ k c, t.get? k = some c → P c) (k' : PropertyKey)
    (c' : Descriptor) (hc : t'.get? k' = some c') : P c' := by
  rcases define?_cases h with ⟨c, hg, -, rfl⟩ | ⟨-, -, rfl⟩
  · rw [get?_insert] at hc
    split at hc
    · cases hc
      exact redefined c (ht k c hg)
    · exact ht k' c' hc
  · rw [get?_insert] at hc
    split at hc
    · cases hc
      exact new
    · exact ht k' c' hc

namespace Object

/-- Every stored property has a kind, and an array stores none at an exotic key. -/
structure Sound (obj : Object) : Prop where
  kinded {k : PropertyKey} {d : Descriptor} : obj.properties.get? k = some d → d.HasKind
  apart {k : PropertyKey} {x : ExoticKey} :
    obj.kind.isArray = true → k.exotic? = some x → obj.properties.get? k = none

/-- No stored property is data and an accessor at once. -/
def OneKind (obj : Object) : Prop := ∀ k d, obj.properties.get? k = some d → d.Unmixed

theorem Sound.define {obj obj' : Object} (hs : obj.Sound) {k : PropertyKey} {d : Descriptor}
    (h : obj.define? k d = some obj') : obj'.Sound := by
  rcases define?_cases h with ⟨e, e', x, hk, -, -, rfl⟩ | ⟨t, x, c, -, -, -, -, rfl⟩ | ⟨hplain, -, t, ht, rfl⟩
  · exact ⟨hs.kinded, fun _ hx => hs.apart (by rw [hk]; rfl) hx⟩
  · exact hs
  · have kinded := PropertyTable.all_of_define? ht (hasKind_complete d) (fun c hc => hasKind_merge hc d)
      fun _ _ hg => hs.kinded hg
    refine ⟨fun hg => kinded _ _ hg, ?_⟩
    intro k' x ha hx
    have hne : k' ≠ k := by
      rintro rfl
      rw [hplain ha] at hx
      cases hx
    rcases PropertyTable.define?_cases ht with ⟨c, -, -, rfl⟩ | ⟨-, -, rfl⟩
    · rw [PropertyTable.get?_insert, if_neg hne]
      exact hs.apart ha hx
    · rw [PropertyTable.get?_insert, if_neg hne]
      exact hs.apart ha hx

theorem OneKind.define {obj obj' : Object} (hs : obj.OneKind) {k : PropertyKey} {d : Descriptor} (hd : d.Unmixed)
    (h : obj.define? k d = some obj') : obj'.OneKind := by
  rcases define?_cases h with ⟨e, e', x, -, -, -, rfl⟩ | ⟨t, x, c, -, -, -, -, rfl⟩ | ⟨-, -, t, ht, rfl⟩
  · exact hs
  · exact hs
  · exact PropertyTable.all_of_define? ht (unmixed_complete hd) (fun c hc => unmixed_merge hc hd) hs

/-- A step that is no definition and no unchecked write leaves the kind and the table. -/
theorem Step.define_or_frame {obj obj' : Object} (h : obj.Step R obj') (hR : R.raw = false) :
    (∃ k d, R.Allows d ∧ obj.define? k d = some obj') ∨ (obj'.kind = obj.kind ∧ obj'.properties = obj.properties) := by
  cases h with
  | define ha hd => exact Or.inl ⟨_, _, ha, hd⟩
  | advance hn =>
    obtain ⟨i, rfl⟩ := nextItem?_frame hn
    exact Or.inr ⟨rfl, rfl⟩
  | reparent | prevent => exact Or.inr ⟨rfl, rfl⟩
  | insert k d hr => rw [hR] at hr; cases hr

theorem Sound.step {obj obj' : Object} (hs : obj.Sound) (h : obj.Step R obj') (hR : R.raw = false) : obj'.Sound := by
  rcases h.define_or_frame hR with ⟨k, d, -, hd⟩ | ⟨hk, ht⟩
  · exact hs.define hd
  · exact ⟨fun hg => hs.kinded (ht ▸ hg), fun ha hx => ht ▸ hs.apart (hk ▸ ha) hx⟩

theorem OneKind.step {obj obj' : Object} (hs : obj.OneKind) (h : obj.Step .strict obj') : obj'.OneKind := by
  rcases h.define_or_frame rfl with ⟨k, d, ha, hd⟩ | ⟨-, ht⟩
  · have hu : d.Unmixed := ha.resolve_left Bool.false_ne_true
    exact hs.define hu hd
  · exact fun k d hg => hs k d (ht ▸ hg)

end Object

/-- What an object is like when it is made, or is there from the first. -/
theorem Object.sound_of_entries {obj : Object}
    (h : ∀ e ∈ obj.properties.entries, e.2.HasKind ∧ e.2.Unmixed ∧ (obj.kind.isArray = true → e.1.exotic? = none)) :
    obj.Sound ∧ obj.OneKind := by
  refine ⟨⟨fun hg => (h _ (PropertyTable.mem_of_get? hg)).1, ?_⟩, fun k d hg => (h _ (PropertyTable.mem_of_get? hg)).2.1⟩
  intro k x ha hx
  cases hg : obj.properties.get? k with
  | none => rfl
  | some d =>
    have free := (h _ (PropertyTable.mem_of_get? hg)).2.2 ha
    rw [hx] at free
    cases free

instance (d : Descriptor) : Decidable d.HasKind := inferInstanceAs (Decidable (_ = _))

instance (d : Descriptor) : Decidable d.Unmixed := inferInstanceAs (Decidable (_ = _))

theorem Object.Born.sound {obj : Object} (h : obj.Born) : obj.Sound ∧ obj.OneKind := by
  apply Object.sound_of_entries
  cases h with
  | plain | array => exact fun e he => absurd he List.not_mem_nil
  | function f p =>
    simp [ofFunction, insert, PropertyTable.insert, PropertyTable.put, HasKind, Unmixed, data, isData, isAccessor,
      Kind.isArray]
  | error t message p =>
    simp [ofError, insertBuiltin, insert, PropertyTable.insert, PropertyTable.put, HasKind, Unmixed, builtin, data,
      isData, isAccessor, Kind.isArray]

theorem Realm.objects_sound {obj : Object} (h : obj ∈ Realm.objects) : obj.Sound ∧ obj.OneKind := by
  have all : ∀ obj ∈ Realm.objects, ∀ e ∈ obj.properties.entries,
      e.2.HasKind ∧ e.2.Unmixed ∧ (obj.kind.isArray = true → e.1.exotic? = none) := by decide
  exact Object.sound_of_entries (all obj h)

theorem Machine.Reachable.sound {m : Machine} (h : m.Reachable R) (hR : R.raw = false) {o : ObjectId} {obj : Object}
    (ho : m.store.get? o = some obj) : obj.Sound :=
  h.all (fun _ hm => (Realm.objects_sound hm).1) (fun _ hb => hb.sound.1) (fun _ _ hs hp => hp.step hs hR) ho

theorem Machine.Reachable.oneKind {m : Machine} (h : m.Reachable .strict) {o : ObjectId} {obj : Object}
    (ho : m.store.get? o = some obj) : obj.OneKind :=
  h.all (fun _ hm => (Realm.objects_sound hm).2) (fun _ hb => hb.sound.2) (fun _ _ hs hp => hp.step hs) ho

namespace Object

/-! ## Own properties -/

theorem own?_eq_some {obj : Object} {k : PropertyKey} {d : Descriptor} :
    obj.own? k = some d ↔ obj.exotic? k = some d ∨ (obj.exotic? k = none ∧ obj.properties.get? k = some d) := by
  unfold own?
  cases obj.exotic? k <;> simp

/-- The properties at exotic keys are data, with all their attributes. -/
theorem exotic?_data {obj : Object} {k : PropertyKey} {d : Descriptor} (h : obj.exotic? k = some d) :
    ∃ v w e c, d = .data v w e c := by
  unfold exotic? at h
  split at h
  · obtain ⟨x, -, hx⟩ := Option.bind_eq_some_iff.mp h
    cases x with
    | length =>
      cases hx
      exact ⟨_, _, _, _, rfl⟩
    | index i =>
      obtain ⟨v, -, rfl⟩ := Option.map_eq_some_iff.mp hx
      exact ⟨_, _, _, _, rfl⟩
  · obtain ⟨x, -, hx⟩ := Option.bind_eq_some_iff.mp h
    cases x with
    | length =>
      cases hx
      exact ⟨_, _, _, _, rfl⟩
    | index i =>
      simp only [Text.own?] at hx
      split at hx
      · cases hx
        exact ⟨_, _, _, _, rfl⟩
      · cases hx
  · cases h

theorem exotic?_unmixed {obj : Object} {k : PropertyKey} {d : Descriptor} (h : obj.exotic? k = some d) : d.Unmixed := by
  obtain ⟨v, w, e, c, rfl⟩ := exotic?_data h
  rfl

theorem OneKind.own {obj : Object} (hs : obj.OneKind) {k : PropertyKey} {d : Descriptor} (h : obj.own? k = some d) :
    d.Unmixed := by
  rcases own?_eq_some.mp h with h | ⟨-, h⟩
  · exact exotic?_unmixed h
  · exact hs k d h

/-- Of an array only the length is not configurable, and it is no read-only value: it may change, the rest stays. -/
theorem exotic?_retained {obj : Object} {e e' : Elements} {k : PropertyKey} {d : Descriptor} (ha : obj.kind = .array e)
    (h : obj.exotic? k = some d) (hc : d.configurable = some false) :
    ∃ d', { obj with kind := .array e' }.exotic? k = some d' ∧ d.Retained d' := by
  simp only [exotic?, ha] at h ⊢
  obtain ⟨x, hx, hd⟩ := Option.bind_eq_some_iff.mp h
  cases x with
  | length =>
    cases hd
    exact ⟨e'.lengthProperty, by rw [hx]; rfl, retained_data _ _ _ _⟩
  | index i =>
    obtain ⟨v, -, rfl⟩ := Option.map_eq_some_iff.mp hd
    cases hc

theorem define?_retained {obj obj' : Object} (hs : obj.Sound) {k k' : PropertyKey} {d d₀ : Descriptor}
    (h : obj.define? k' d₀ = some obj') (hd₀ : d₀.Unmixed) (hk : obj.own? k = some d)
    (hc : d.configurable = some false) (hd : d.Unmixed) : ∃ d', obj'.own? k = some d' ∧ d.Retained d' := by
  rcases define?_cases h with ⟨e, e', x, ha, -, -, rfl⟩ | ⟨t, x, c, -, -, -, -, rfl⟩ | ⟨-, -, t, ht, rfl⟩
  · rcases own?_eq_some.mp hk with hx | ⟨hx, ht⟩
    · obtain ⟨d', hd', hr⟩ := exotic?_retained ha hx hc
      exact ⟨d', own?_eq_some.mpr (Or.inl hd'), hr⟩
    · -- A property of the table of an array is not at an exotic key.
      have plain : k.exotic? = none := by
        cases hkx : k.exotic? with
        | none => rfl
        | some x =>
          rw [hs.apart (by rw [ha]; rfl) hkx] at ht
          cases ht
      have hx' : { obj with kind := .array e' }.exotic? k = none := by simp [exotic?, plain]
      exact ⟨d, own?_eq_some.mpr (Or.inr ⟨hx', ht⟩), .refl d⟩
  · exact ⟨d, hk, .refl d⟩
  · rcases own?_eq_some.mp hk with hx | ⟨hx, hg⟩
    · exact ⟨d, own?_eq_some.mpr (Or.inl hx), .refl d⟩
    rcases PropertyTable.define?_cases ht with ⟨c, hgc, ha, rfl⟩ | ⟨hn, -, rfl⟩
    · by_cases e : k = k'
      · subst e
        cases hg.symm.trans hgc
        refine ⟨d.merge d₀, own?_eq_some.mpr (Or.inr ⟨hx, ?_⟩), retained_merge (hs.kinded hg) hd hc hd₀ ha⟩
        rw [PropertyTable.get?_insert, if_pos rfl]
      · refine ⟨d, own?_eq_some.mpr (Or.inr ⟨hx, ?_⟩), .refl d⟩
        rw [PropertyTable.get?_insert, if_neg e]
        exact hg
    · have hne : k ≠ k' := by rintro rfl; rw [hn] at hg; cases hg
      refine ⟨d, own?_eq_some.mpr (Or.inr ⟨hx, ?_⟩), .refl d⟩
      rw [PropertyTable.get?_insert, if_neg hne]
      exact hg

theorem Step.retained {obj obj' : Object} (h : obj.Step .strict obj') (hs : obj.Sound) {k : PropertyKey}
    {d : Descriptor} (hk : obj.own? k = some d) (hc : d.configurable = some false) (hd : d.Unmixed) :
    ∃ d', obj'.own? k = some d' ∧ d.Retained d' := by
  rcases h.define_or_frame rfl with ⟨k', d₀, ha, hdef⟩ | ⟨hkind, ht⟩
  · exact define?_retained hs hdef (ha.resolve_left Bool.false_ne_true) hk hc hd
  · refine ⟨d, ?_, .refl d⟩
    rw [← hk, own?, own?, exotic?, exotic?, hkind, ht]

theorem retained_stays {obj obj' : Object} (h : Relation.ReflTransGen (Object.Step .strict) obj obj') (hs : obj.Sound)
    {k : PropertyKey} {d : Descriptor} (hk : obj.own? k = some d) (hc : d.configurable = some false) (hd : d.Unmixed) :
    obj'.Sound ∧ ∃ d', obj'.own? k = some d' ∧ d.Retained d' := by
  induction h with
  | refl => exact ⟨hs, d, hk, .refl d⟩
  | tail _ hstep ih =>
    obtain ⟨hs₁, d₁, hk₁, hr₁⟩ := ih
    have hd₁ : d₁.Unmixed := by rw [Unmixed, hr₁.data, hr₁.accessor]; exact hd
    obtain ⟨d₂, hk₂, hr₂⟩ := hstep.retained hs₁ hk₁ (hr₁.configurable.trans hc) hd₁
    exact ⟨hs₁.step hstep rfl, d₂, hk₂, hr₁.trans hr₂⟩

end Object

/-! ## Any run -/

/-- A property that is not configurable is there after every run, with all that it retains,
    where definitions ask for one kind at a time; and before that too, or else the property
    itself is of one kind. -/
theorem not_configurable_is_permanent {host : Host σ} (hh : host.Public .strict) (config : Config) (budget : Budget)
    {w : World σ} {o : ObjectId} {k : PropertyKey} {d : Descriptor} (hk : w.machine.store.own? o k = some d)
    (hc : d.configurable = some false)
    (hw : w.machine.Reachable .strict ∨ (w.machine.Reachable .checked ∧ d.Unmixed)) {x : Act σ α}
    (hx : x.Public .strict) :
    ∃ d', (x.storeAfter host config budget w).own? o k = some d' ∧ d'.configurable = some false ∧ d.Retained d' := by
  obtain ⟨obj, ho, hown⟩ := Option.bind_eq_some_iff.mp hk
  obtain ⟨obj', ho', hrun⟩ := (run_steps hh hx config budget w).object ho
  have sound : obj.Sound ∧ d.Unmixed := by
    rcases hw with hw | ⟨hw, hd⟩
    · exact ⟨hw.sound rfl ho, (hw.oneKind ho).own hown⟩
    · exact ⟨hw.sound rfl ho, hd⟩
  obtain ⟨-, d', hk', hr⟩ := Object.retained_stays hrun sound.1 hown hc sound.2
  refine ⟨d', ?_, hr.configurable.trans hc, hr⟩
  show ((x.run host config budget w).world.machine.store.get? o).bind (·.own? k) = some d'
  rw [ho']
  exact hk'

/-! ## A property of an otherwise empty object -/

/-- The first machine with one object more, which has one property. -/
def Machine.withProperty (d : Descriptor) : Machine :=
  { store := (Realm.store.add {}).modify Realm.store.fresh fun _ => ({} : Object).insert "x" d.complete }

theorem Machine.withProperty_reachable {d : Descriptor} (hd : R.Allows d) : (Machine.withProperty d).Reachable R := by
  have made : (Realm.store.add {}).get? Realm.store.fresh = some {} := by
    rw [Store.get?_add, if_pos rfl]
    rfl
  have accepted : ({} : Object).define? "x" d = some (({} : Object).insert "x" d.complete) := rfl
  have first : Machine.Run R {} { store := Realm.store.add {} } := .single (.create {} (.plain none none rfl))
  have defined : (Realm.store.add {}).define? Realm.store.fresh "x" d = some (withProperty d).store :=
    Store.define?_eq_some.mpr ⟨{}, _, made, accepted, rfl⟩
  exact first.tail (.define _ hd defined)

/-- A read-only property outlasts an assignment. -/
theorem a_frozen_property_outlasts_an_assignment :
    let d : Descriptor := .data .null false true false
    let w : World Unit := ⟨.withProperty d, ()⟩
    ∃ d', ((Act.set Realm.store.fresh "x" (.boolean true) (.object Realm.store.fresh)).storeAfter idle {} ⟨64, 64⟩ w).own?
      Realm.store.fresh "x" = some d' ∧ d'.configurable = some false ∧ d.Retained d' := by
  intro d w
  have own : w.machine.store.own? Realm.store.fresh "x" = some d := by decide
  have reachable : w.machine.Reachable .strict := Machine.withProperty_reachable (Or.inr rfl)
  exact not_configurable_is_permanent (fun _ _ _ => .ret _) {} ⟨64, 64⟩ own rfl (Or.inl reachable) (.set _ _ _ _)

/-- A property that was defined as read-only data and as an accessor at once takes a new value, and is data then. -/
theorem a_mixed_property_is_overwritten :
    let d : Descriptor :=
      { value := some (.boolean true), writable := some false, getter := some .undefined, configurable := some false }
    let w : World Unit := ⟨.withProperty d, ()⟩
    let x : Act Unit Bool := Act.define Realm.store.fresh "x" (.onlyValue (.boolean false))
    w.machine.Reachable .checked ∧ x.Public .strict ∧
      w.machine.store.own? Realm.store.fresh "x" = some { d with setter := some .undefined, enumerable := some false } ∧
      (x.storeAfter idle {} ⟨64, 64⟩ w).own? Realm.store.fresh "x" = some (.data (.boolean false) false false false) := by
  intro d w x
  have reachable : w.machine.Reachable .checked := Machine.withProperty_reachable (Or.inl rfl)
  exact ⟨reachable, .define _ _ (Or.inr rfl), by decide, by decide⟩

end EcmaObjects
