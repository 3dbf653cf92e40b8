/-
  EcmaObjects.Proofs.Extensible — objects that may not grow.

  An object that is not extensible keeps its prototype for good, and a key that it does
  not own stays absent through any run of operations (`absent_stays`). The array is the
  exception: its elements are stored without a look at the flag, so an array that may
  not grow still takes an element at any free index
  (`a_closed_array_takes_an_element`). `grows_only_by_elements` puts the two together:
  a free key can come to be owned if and only if it is an index of an array.
-/

import EcmaObjects.Proofs.Public

namespace EcmaObjects

/-- Is this a key at which the object, as an array, stores elements? -/
def Object.StoresAt (obj : Object) (k : PropertyKey) : Prop :=
  obj.kind.isArray = true ∧ ∃ i, k.exotic? = some (.index i)

variable {R : Rules}

/-! ## One step -/

theorem Object.Step.closed {obj obj' : Object} (h : obj.Step R obj') (hx : obj.extensible = false) :
    obj'.extensible = false ∧ obj'.proto = obj.proto := by
  cases h with
  | define _ hd =>
    obtain ⟨hp, he, -⟩ := Object.define?_frame hd
    exact ⟨he.trans hx, hp⟩
  | reparent p he => rw [hx] at he; cases he
  | advance hn =>
    obtain ⟨i, rfl⟩ := Object.nextItem?_frame hn
    exact ⟨hx, rfl⟩
  | prevent => exact ⟨rfl, rfl⟩
  | insert => exact ⟨hx, rfl⟩

theorem Object.Step.storesAt {obj obj' : Object} (h : obj.Step R obj') (k : PropertyKey) :
    obj'.StoresAt k ↔ obj.StoresAt k := by
  unfold StoresAt
  rw [h.isArray]

/-- An array always has a length, so a free key that is no index is an ordinary one. -/
theorem Object.exotic?_eq_none_of_free {obj : Object} {k : PropertyKey} (ha : obj.kind.isArray = true)
    (hk : obj.exotic? k = none) (hn : ¬ obj.StoresAt k) : k.exotic? = none := by
  cases hx : k.exotic? with
  | none => rfl
  | some x =>
    cases x with
    | index i => exact absurd ⟨ha, i, hx⟩ hn
    | length =>
      cases he : obj.kind with
      | array e => simp [exotic?, he, hx, Elements.own?] at hk
      | _ => simp [he, Kind.isArray] at ha

/-- A definition does not make a free key owned, if the object may not grow and the key is no index of an array. -/
theorem Object.define?_absent {obj obj' : Object} {k k' : PropertyKey} {d : Descriptor}
    (h : obj.define? k' d = some obj') (hx : obj.extensible = false) (hk : obj.own? k = none) (hn : ¬ obj.StoresAt k) :
    obj'.own? k = none := by
  obtain ⟨he, ht⟩ := own?_eq_none.mp hk
  rcases define?_cases h with ⟨e, e', x, hk', -, -, rfl⟩ | ⟨t, x, c, -, -, -, -, rfl⟩ | ⟨-, -, t, hd, rfl⟩
  · have hx' := exotic?_eq_none_of_free (by rw [hk']; rfl) he hn
    exact own?_eq_none.mpr ⟨by simp [exotic?, hx'], ht⟩
  · exact hk
  · refine own?_eq_none.mpr ⟨he, ?_⟩
    rcases PropertyTable.define?_cases hd with ⟨c, hc, -, rfl⟩ | ⟨-, hx', -⟩
    · have hne : k ≠ k' := by rintro rfl; rw [ht] at hc; cases hc
      rw [PropertyTable.get?_insert, if_neg hne]; exact ht
    · rw [hx] at hx'; cases hx'

theorem Object.Step.absent {obj obj' : Object} (h : obj.Step R obj') (hR : R.raw = false) (hx : obj.extensible = false)
    {k : PropertyKey} (hk : obj.own? k = none) (hn : ¬ obj.StoresAt k) : obj'.own? k = none := by
  cases h with
  | define _ hd => exact Object.define?_absent hd hx hk hn
  | reparent p he => rw [hx] at he; cases he
  | advance hi => obtain ⟨i, rfl⟩ := Object.nextItem?_frame hi; exact hk
  | prevent => exact hk
  | insert k' d hr => rw [hR] at hr; cases hr

/-! ## Any number of steps -/

theorem closed_stays {obj obj' : Object} (h : Relation.ReflTransGen (Object.Step R) obj obj')
    (hx : obj.extensible = false) : obj'.extensible = false ∧ obj'.proto = obj.proto := by
  induction h with
  | refl => exact ⟨hx, rfl⟩
  | tail _ hs ih =>
    obtain ⟨h1, h2⟩ := hs.closed ih.1
    exact ⟨h1, h2.trans ih.2⟩

/-- An object that may not grow keeps a free key free, unless the key is an index of an array. -/
theorem absent_stays {obj obj' : Object} (h : Relation.ReflTransGen (Object.Step R) obj obj') (hR : R.raw = false)
    (hx : obj.extensible = false) {k : PropertyKey} (hk : obj.own? k = none) (hn : ¬ obj.StoresAt k) :
    obj'.own? k = none ∧ ¬ obj'.StoresAt k := by
  induction h with
  | refl => exact ⟨hk, hn⟩
  | tail hr hs ih => exact ⟨hs.absent hR (closed_stays hr hx).1 ih.1 ih.2, fun h => ih.2 ((hs.storesAt k).mp h)⟩

/-! ## Any run -/

variable {σ α : Type}

theorem Object.define?_element {obj : Object} {k : PropertyKey} (h : obj.StoresAt k) (v : Value) :
    ∃ obj', obj.define? k (.plain v) = some obj' ∧ obj'.own? k = some (.plain v) := by
  obtain ⟨ha, i, hi⟩ := h
  cases hk : obj.kind with
  | array e =>
    have hd : e.define? (.index i) (.plain v) = some (e.set i v) := by
      simp [Elements.define?, Elements.defineElement?, Descriptor.plain, Descriptor.data, Descriptor.isAccessor]
    refine ⟨{ obj with kind := .array (e.set i v) }, by simp [define?, hk, hi, hd], ?_⟩
    simp [own?, exotic?, hi, Elements.own?, Elements.get?_set_self]
  | _ => simp [hk, Kind.isArray] at ha

theorem createData_element {o : ObjectId} {k : PropertyKey} {obj : Object} {w : World σ}
    (ho : w.machine.store.get? o = some obj) (hs : obj.StoresAt k) (v : Value) (host : Host σ) (config : Config)
    (budget : Budget) : ((Act.createData o k v).storeAfter host config budget w).own? o k = some (.plain v) := by
  obtain ⟨obj', hd, hown⟩ := Object.define?_element hs v
  have hstore : w.machine.store.define? o k (.plain v) = some (w.machine.store.modify o fun _ => obj') :=
    Store.define?_eq_some.mpr ⟨obj, obj', ho, hd, rfl⟩
  have hafter : (Act.createData o k v).storeAfter host config budget w = w.machine.store.modify o fun _ => obj' := by
    simp only [Act.storeAfter, Act.run, Act.createData, Act.define, Act.bind_apply, Act.store_apply, hstore]
    rfl
  rw [hafter, Store.own?, Store.get?_modify, if_pos rfl, ho]
  exact hown

/-- An object that may not grow keeps its prototype through every run, and a key that it
    does not own can come to be owned if and only if it is an index of an array. -/
theorem grows_only_by_elements {host : Host σ} (hh : host.Public .checked) (config : Config) (budget : Budget)
    {w : World σ} {o : ObjectId} {obj : Object} (ho : w.machine.store.get? o = some obj) (hx : obj.extensible = false) :
    (∀ (α : Type) (x : Act σ α), x.Public .checked →
      (x.storeAfter host config budget w).protoOf o = w.machine.store.protoOf o) ∧
    ∀ k, w.machine.store.own? o k = none →
      ((∀ (α : Type) (x : Act σ α), x.Public .checked → (x.storeAfter host config budget w).own? o k = none) ↔
        ¬ obj.StoresAt k) := by
  have later {α : Type} {x : Act σ α} (hp : x.Public .checked) :
      ∃ obj', (x.storeAfter host config budget w).get? o = some obj' ∧
        Relation.ReflTransGen (Object.Step .checked) obj obj' :=
    (run_steps hh hp config budget w).object ho
  refine ⟨fun α x hp => ?_, fun k hk => ⟨fun hall hs => ?_, fun hn α x hp => ?_⟩⟩
  · obtain ⟨obj', h', hr⟩ := later hp
    simp [Store.protoOf, h', ho, (closed_stays hr hx).2]
  · have hnone := hall Bool (Act.createData o k .undefined) (.createData o k .undefined)
    rw [createData_element ho hs] at hnone
    cases hnone
  · obtain ⟨obj', h', hr⟩ := later hp
    have hfree : obj.own? k = none := by simpa [Store.own?, ho] using hk
    simp [Store.own?, h', (absent_stays hr rfl hx hfree hn).1]

/-! ## An array that may not grow -/

def Machine.withClosed (obj : Object) : Machine :=
  { store := (Realm.store.add obj).modify Realm.store.fresh fun obj => { obj with extensible := false } }

theorem Machine.withClosed_reachable {obj : Object} (h : obj.Born) : (Machine.withClosed obj).Reachable R :=
  .tail (.single (.create {} h)) (.prevent _ Realm.store.fresh)

def emptyArray : Object := { kind := .array (.ofValues #[]) }

/-- The array keeps its prototype and never gets a property at `01`, which is no index. -/
theorem a_closed_array_stays_free_at_other_keys :
    let w : World Unit := ⟨.withClosed emptyArray, ()⟩
    w.machine.store.get? Realm.store.fresh = some { emptyArray with extensible := false } ∧
      w.machine.store.own? Realm.store.fresh "01" = none ∧
      ∀ (α : Type) (x : Act Unit α), x.Public .checked →
        (x.storeAfter idle {} ⟨64, 64⟩ w).protoOf Realm.store.fresh = none ∧
        (x.storeAfter idle {} ⟨64, 64⟩ w).own? Realm.store.fresh "01" = none := by
  intro w
  have hg : w.machine.store.get? Realm.store.fresh = some { emptyArray with extensible := false } := by decide
  have hk : w.machine.store.own? Realm.store.fresh "01" = none := by decide
  have hn : ¬ Object.StoresAt { emptyArray with extensible := false } "01" := by
    rintro ⟨-, i, hi⟩
    have hfree : PropertyKey.exotic? "01" = none := by decide
    rw [hfree] at hi
    cases hi
  obtain ⟨hproto, hown⟩ := grows_only_by_elements (fun _ _ _ => .ret _) {} ⟨64, 64⟩ hg rfl
  exact ⟨hg, hk, fun α x hp => ⟨hproto α x hp, (hown "01" hk).mpr hn α x hp⟩⟩

/-- The same array takes an element at index 0. -/
theorem a_closed_array_takes_an_element :
    let w : World Unit := ⟨.withClosed emptyArray, ()⟩
    w.machine.Reachable .checked ∧ (w.machine.store.get? Realm.store.fresh).map (·.extensible) = some false ∧
      w.machine.store.own? Realm.store.fresh "0" = none ∧
      ((Act.createData Realm.store.fresh "0" .null).storeAfter idle {} ⟨64, 64⟩ w).own? Realm.store.fresh "0" =
        some (.plain .null) := by
  intro w
  exact ⟨Machine.withClosed_reachable (.array #[] none), by decide, by decide, by decide⟩

end EcmaObjects
