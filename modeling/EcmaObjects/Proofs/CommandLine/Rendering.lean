/-
  EcmaObjects.Proofs.CommandLine.Rendering — every probe names a value that has a text.

  A probe is read without a call and without a line printed; it may make an object, and leaves
  those that were there (`Store.Within`). The value is a primitive other than a symbol, or an
  object that inherits its conversion from the first objects (`Object.ShowsTag`), so it has a
  text, and converting it changes nothing (`Act.toText_of_renders`).
  - `values_of_valid`: the values of probes that are all valid, with their texts.
  - `values_of_invalid`: the error of the first probe that is not.
-/

import EcmaObjects.CommandLine.Run
import EcmaObjects.Proofs.Adapter
import EcmaObjects.Proofs.Array
import EcmaObjects.Proofs.Primitive
import EcmaObjects.Proofs.Tag

namespace EcmaObjects

variable {σ : Type}

/-! ## Stores that grow -/

/-- Every object of the one store is in the other as it is. -/
def Store.Within (s s' : Store) : Prop := ∀ o obj, s.get? o = some obj → s'.get? o = some obj

namespace Store.Within

variable {s s' s'' : Store}

theorem refl (s : Store) : s.Within s := fun _ _ h => h

theorem trans (h : s.Within s') (h' : s'.Within s'') : s.Within s'' := fun o obj ho => h' o obj (h o obj ho)

theorem add (s : Store) (new : Object) : s.Within (s.add new) := fun _ _ h => get?_add_of_some h new

theorem own? (h : s.Within s') {o : ObjectId} (ho : s.has o = true) (k : PropertyKey) : s'.own? o k = s.own? o k := by
  obtain ⟨obj, hg⟩ := (s.has_iff o).mp ho
  rw [Store.own?, Store.own?, hg, h o obj hg]

theorem protoOf (h : s.Within s') {o : ObjectId} (ho : s.has o = true) : s'.protoOf o = s.protoOf o := by
  obtain ⟨obj, hg⟩ := (s.has_iff o).mp ho
  rw [Store.protoOf, Store.protoOf, hg, h o obj hg]

theorem find (h : s.Within s') (closed : ∀ o p, s.protoOf o = some p → s.has p = true) {o : ObjectId}
    (ho : s.has o = true) (k : PropertyKey) (limit : Nat) : s'.find k limit o = s.find k limit o :=
  find_congr (fun _ hp => h.own? hp k) (fun _ hp => h.protoOf hp) (fun _ _ _ => closed _ _) ho limit

end Store.Within

/-! ## The first objects -/

namespace Realm

theorem closed {o p : ObjectId} (h : store.protoOf o = some p) : store.has p = true := by
  have all : ∀ obj ∈ objects, ∀ p ∈ obj.proto, store.has p = true := by decide
  obtain ⟨obj, hg, hp⟩ := Option.bind_eq_some_iff.mp h
  exact all obj (Array.mem_of_getElem? hg) p hp

/-- The prototypes of what probes name. -/
def probePrototypes : List Intrinsic := [.objectPrototype, .arrayPrototype, .functionPrototype, .typeErrorPrototype]

/-- From each of them two links lead at most to `toString`, and to no other method of conversion. -/
theorem find_of_probePrototype {i : Intrinsic} (h : i ∈ probePrototypes) (n : Nat) :
    store.find WellKnown.toPrimitive (n + 3) i.object = .absent ∧
      store.find "toString" (n + 3) i.object = .found (.builtin (.object Intrinsic.objectToString.object)) ∧
      store.find WellKnown.toStringTag (n + 3) i.object = .absent := by
  simp only [probePrototypes, List.mem_cons, List.not_mem_nil, or_false] at h
  rcases h with rfl | rfl | rfl | rfl <;> exact ⟨rfl, rfl, rfl⟩

end Realm

namespace Store.Within

/-- An object without the property itself reads what its prototype among the first objects reads. -/
theorem find_inherited {s : Store} (realm : Realm.store.Within s) {o : ObjectId} {i : Intrinsic} {k : PropertyKey}
    (own : s.own? o k = none) (proto : s.protoOf o = some i.object) (n : Nat) :
    s.find k (n + 1) o = Realm.store.find k n i.object := by
  rw [find_of_proto own proto]
  exact realm.find (fun _ _ => Realm.closed) (Realm.store.has_intrinsic i) k n

end Store.Within

/-! ## Texts of values -/

/-- An object that is converted by `toString` of the first objects, and this with this tag. -/
structure Object.ShowsTag (obj : Object) (tag : String) : Prop where
  inherits : ∃ i ∈ Realm.probePrototypes, obj.proto = some i.object
  noPrimitive : obj.own? WellKnown.toPrimitive = none
  noText : obj.own? "toString" = none
  tag : (obj.own? WellKnown.toStringTag = none ∧ obj.tag = tag) ∨
    obj.own? WellKnown.toStringTag = some (.plain (.ofString tag))

/-- The text of a value whose conversion runs no code of its own. -/
inductive Store.Renders (s : Store) : Value → String → Prop
  | primitive {v : Value} {text : String} : v.primitiveText? = some text → Renders s v text
  | object {o : ObjectId} {obj : Object} {tag : String} : s.get? o = some obj → obj.ShowsTag tag →
      Renders s (.object o) ("[object " ++ tag ++ "]")

theorem Store.Renders.within {s s' : Store} (h : s.Within s') {v : Value} {text : String} (hv : s.Renders v text) :
    s'.Renders v text := by
  cases hv with
  | primitive ht => exact .primitive ht
  | object ho shows => exact .object (h _ _ ho) shows

namespace Act

section
variable {env : Env σ} {host : Host σ} {w : World σ} {o : ObjectId} {obj : Object} {tag : String} {n : Nat}

theorem toText_of_showsTag (realm : Realm.store.Within w.machine.store) (limit : env.maxDepth = n + 4)
    (ho : w.machine.store.get? o = some obj) (h : obj.ShowsTag tag) :
    toText (.object o) (env.over host) w = .ok (.ofString ("[object " ++ tag ++ "]")) w := by
  obtain ⟨i, prototype, hp⟩ := h.inherits
  obtain ⟨noPrimitive, toStringFound, noTag⟩ := Realm.find_of_probePrototype prototype n
  have proto : w.machine.store.protoOf o = some i.object := by
    rw [Store.protoOf, ho]
    exact hp
  have inherited {k : PropertyKey} (hk : obj.own? k = none) :
      w.machine.store.find k (n + 4) o = Realm.store.find k (n + 3) i.object := by
    have own : w.machine.store.own? o k = none := (Store.own?_of_get? ho k).trans hk
    exact realm.find_inherited own proto (n + 3)
  have primitive : getMethod (.object o) WellKnown.toPrimitive (env.over host) w = .ok none w := by
    refine getMethod_of_absent ?_
    show w.machine.store.find _ env.maxDepth o = _
    rw [limit, inherited h.noPrimitive, noPrimitive]
  have method : get o "toString" (.object o) (env.over host) w = .ok (.object Intrinsic.objectToString.object) w := by
    refine get_of_found (d := .builtin (.object Intrinsic.objectToString.object)) ?_ rfl _
    show w.machine.store.find _ env.maxDepth o = _
    rw [limit, inherited h.noText, toStringFound]
  have tagged : toStringTag (.object o) env w = .ok (objectText tag) w := by
    rw [toStringTag_object]
    rcases h.tag with ⟨untagged, kind⟩ | own
    · have read : get o WellKnown.toStringTag (.object o) env w = .ok .undefined w := by
        refine get_of_absent ?_ _
        rw [limit, inherited untagged, noTag]
      have byKind : w.machine.store.tagOf o = tag := by
        rw [Store.tagOf, ho, ← kind]
        rfl
      rw [read, objectText_eq, ← byKind]
    · have read : get o WellKnown.toStringTag (.object o) env w = .ok (.ofString tag) w :=
        get_of_own ((Store.own?_of_get? ho _).trans own) rfl _ env
      rw [read, objectText_eq]
      show Result.ok (Value.string (Text.ofString tag).mended.bracketed) w = _
      rw [← Text.ofString_lossy, Text.lossy_ofString]
  have behavior : behavior? w.machine.store (.object Intrinsic.objectToString.object) = some (.builtin .toString) := by
    have first : w.machine.store.get? Intrinsic.objectToString.object = some (Realm.method "toString" 0 .toString) :=
      realm _ _ rfl
    simp only [behavior?, Value.object?, Option.bind_some, first]
    rfl
  have called : call (.object Intrinsic.objectToString.object) (.object o) [] (env.over host) w =
      .ok (objectText tag) w := by
    have run : (env.over host).perform (.builtin .toString) (.object o) [] w = toStringTag (.object o) env w := rfl
    rw [call_of_some behavior, run, tagged]
    rfl
  have converted : Act.toPrimitive (.object o) .string (env.over host) w = .ok (objectText tag) w := by
    have callable : w.machine.store.isCallable (.object Intrinsic.objectToString.object) = true :=
      isCallable_iff.mpr ⟨_, behavior⟩
    simp only [Act.toPrimitive, bind_apply, primitive, Hint.methods, firstPrimitive, method, isCallable, store_apply,
      pure_apply, callable, if_true, called]
    rfl
  rw [toText_of_toPrimitive converted]
  show Result.ok (Text.ofString (Text.ofString ("[object " ++ tag ++ "]")).lossy) w = _
  rw [Text.lossy_ofString]

theorem toText_of_renders (realm : Realm.store.Within w.machine.store) (limit : env.maxDepth = n + 4) {v : Value}
    {text : String} (h : w.machine.store.Renders v text) : toText v (env.over host) w = .ok (.ofString text) w := by
  cases h with
  | object ho shows => exact toText_of_showsTag realm limit ho shows
  | primitive ht =>
    have itself : Act.toPrimitive v .string (env.over host) w = .ok v w := by
      cases v with
      | object o => cases ht
      | _ => rfl
    rw [toText_of_toPrimitive itself, ht]

end
end Act

namespace CommandLine.Probe

/-! ## Reading a probe -/

/-- The action gives a value with a text. It leaves the objects that were there, and prints nothing. -/
def Reads (x : Act Printed Value) : Prop :=
  ∀ (env : Env Printed) (w : World Printed), Realm.store.Within w.machine.store → ∃ v w' text,
    x env w = .ok v w' ∧ w'.host = w.host ∧ w.machine.store.Within w'.machine.store ∧ w'.machine.store.Renders v text

theorem reads_primitive {v : Value} {text : String} (h : v.primitiveText? = some text) : Reads (return v) :=
  fun _ w _ => ⟨v, w, text, rfl, rfl, .refl _, .primitive h⟩

theorem reads_create {obj : Object} {tag : String} (h : obj.ShowsTag tag) :
    Reads (do return .object (← Act.create obj)) := by
  obtain ⟨i, -, inherits⟩ := h.inherits
  exact fun _ w _ => ⟨_, w.add obj, _, rfl, rfl, .add _ obj, .object (Store.get?_add_linked inherits _) h⟩

/-- A tag put on a new object might as well have been there when it was made. -/
theorem reads_tagged (tag : String) : Reads (tagged tag) := by
  intro env w _
  let bare : Object := { proto := some Intrinsic.objectPrototype.object }
  let obj := bare.insert WellKnown.toStringTag (.plain (.ofString tag))
  have made : (w.machine.store.add bare).get? w.machine.store.fresh = some bare :=
    Store.get?_add_linked (i := .objectPrototype) rfl _
  have shows : obj.ShowsTag tag := ⟨⟨.objectPrototype, by decide, rfl⟩, rfl, rfl, Or.inr rfl⟩
  have defined : (w.machine.store.add bare).define? w.machine.store.fresh WellKnown.toStringTag
      (.plain (.ofString tag)) = some (w.machine.store.add obj) := by
    rw [Store.define?_new made rfl, Store.insert_add_fresh]
  have run : tagged tag env w = .ok (.object w.machine.store.fresh) (w.add obj) := by
    change (do
      let _ ← Act.createData w.machine.store.fresh WellKnown.toStringTag (.ofString tag)
      return .object w.machine.store.fresh : Act Printed Value) env (w.add bare) = _
    simp only [Act.bind_apply, Act.createData, Act.define_apply, World.add, defined, Act.pure_apply]
  exact ⟨_, w.add obj, _, run, rfl, .add _ obj, .object (Store.get?_add_linked (i := .objectPrototype) rfl _) shows⟩

/-- An object with no property of its own at the keys that its conversion reads shows the tag of its kind. -/
theorem reads_untagged {obj : Object} {i : Intrinsic} (prototype : i ∈ Realm.probePrototypes)
    (inherits : obj.proto = some i.object)
    (plain : ∀ k ∈ ([WellKnown.toPrimitive, "toString", WellKnown.toStringTag] : List PropertyKey), obj.own? k = none) :
    Reads (do return .object (← Act.create obj)) :=
  reads_create ⟨⟨i, prototype, inherits⟩, plain WellKnown.toPrimitive (by simp), plain "toString" (by simp),
    Or.inl ⟨plain WellKnown.toStringTag (by simp), rfl⟩⟩

theorem reads_words : ∀ p ∈ words, Reads p.2 := by
  simp only [words, List.forall_mem_cons, List.not_mem_nil, false_implies, implies_true, and_true]
  refine ⟨reads_primitive rfl, reads_primitive rfl, reads_primitive rfl, reads_primitive rfl, ?array, ?object, ?function,
    ?error, ?date, ?regExp, ?arguments⟩
  case array => exact reads_untagged (i := .arrayPrototype) (by decide) rfl (by decide)
  case function => exact reads_untagged (i := .functionPrototype) (by decide) rfl (by decide)
  case error => exact reads_untagged (i := .typeErrorPrototype) (by decide) rfl (by decide)
  all_goals exact reads_untagged (i := .objectPrototype) (by decide) rfl (by decide)

theorem reads_of_reading? {s : String} {x : Act Printed Value} (h : reading? s = some x) : Reads x := by
  unfold reading? at h
  simp only [Option.orElse_eq_orElse, Option.orElse_eq_or, Option.or_eq_some_iff, Option.map_eq_some_iff] at h
  obtain h | ⟨-, ⟨tag, -, rfl⟩ | ⟨-, ⟨text, -, rfl⟩ | ⟨-, n, -, rfl⟩⟩⟩ := h
  · obtain ⟨before, after, split, -⟩ := List.lookup_eq_some_iff.mp h
    exact reads_words (s, x) (split ▸ List.mem_append_right before List.mem_cons_self)
  · exact reads_tagged tag
  · exact reads_primitive rfl
  · exact reads_primitive rfl

/-! ## Reading a list of probes -/

/-- The first probe that names no value. -/
def firstInvalid? (probes : List String) : Option String := probes.find? fun s => (reading? s).isNone

theorem values_of_invalid {probes : List String} {s : String} (h : firstInvalid? probes = some s)
    (env : Env Printed) (w : World Printed) (realm : Realm.store.Within w.machine.store) :
    ∃ w', values probes env w = .ok (.error (.invalidProbe s)) w' ∧ w'.host = w.host := by
  induction probes generalizing w with
  | nil => cases h
  | cons p rest ih =>
    cases hp : reading? p with
    | none =>
      have first : p = s := by
        rw [firstInvalid?, List.find?_cons_of_pos (by rw [hp]; rfl)] at h
        exact Option.some.inj h
      subst first
      refine ⟨w, ?_, rfl⟩
      simp only [values, value, hp, Act.bind_apply, Act.pure_apply]
    | some x =>
      rw [firstInvalid?, List.find?_cons_of_neg (by rw [hp]; exact Bool.false_ne_true)] at h
      obtain ⟨v, w₁, text, read, host, within, -⟩ := reads_of_reading? hp env w realm
      obtain ⟨w₂, fails, host'⟩ := ih h w₁ (realm.trans within)
      refine ⟨w₂, ?_, host'.trans host⟩
      simp only [values, value, hp, Act.bind_apply, Act.pure_apply, read, fails]
      rfl

theorem values_of_valid {probes : List String} (h : firstInvalid? probes = none) (env : Env Printed) (w : World Printed)
    (realm : Realm.store.Within w.machine.store) :
    ∃ vs texts w', values probes env w = .ok (.ok vs) w' ∧ w'.host = w.host ∧
      w.machine.store.Within w'.machine.store ∧ vs.length = probes.length ∧
      List.Forall₂ w'.machine.store.Renders vs texts := by
  induction probes generalizing w with
  | nil => exact ⟨[], [], w, rfl, rfl, .refl _, rfl, .nil⟩
  | cons p rest ih =>
    cases hp : reading? p with
    | none =>
      rw [firstInvalid?, List.find?_cons_of_pos (by rw [hp]; rfl)] at h
      cases h
    | some x =>
      rw [firstInvalid?, List.find?_cons_of_neg (by rw [hp]; exact Bool.false_ne_true)] at h
      obtain ⟨v, w₁, text, read, host, within, renders⟩ := reads_of_reading? hp env w realm
      obtain ⟨vs, texts, w₂, run, host', within', count, render⟩ := ih h w₁ (realm.trans within)
      refine ⟨v :: vs, text :: texts, w₂, ?_, host'.trans host, within.trans within', congrArg (· + 1) count,
        .cons (renders.within within') render⟩
      simp only [values, value, hp, Act.bind_apply, Act.pure_apply, read, run]
      rfl

end CommandLine.Probe

end EcmaObjects
