/-
  EcmaObjects.Proofs.Store — reading a store after it changed.

  A new object is found at the fresh handle and nowhere else (`get?_add`), and a change of
  one object shows at its own handle only (`get?_modify`). A definition and a step of a
  list iterator are such changes (`define?_eq_some`, `nextItem?_eq_some`). A look-up that
  meets nothing that was changed finds what it found (`find_congr`).
-/

import EcmaObjects.Iterator.List

namespace EcmaObjects

namespace Store

/-- What one of the library's iterators remembers. -/
def iteration? (s : Store) (o : ObjectId) : Option Iteration := (s.get? o).bind (·.iteration)

theorem get?_add (s : Store) (obj : Object) (o : ObjectId) :
    (s.add obj).get? o = if o = s.fresh then some { obj with proto := s.link? obj.proto } else s.get? o := by
  have h : o = s.fresh ↔ o.index = s.objects.size := ⟨fun e => by rw [e]; rfl, fun e => by cases o; subst e; rfl⟩
  simp only [add, get?, Array.getElem?_push, h]

theorem get?_modify (s : Store) (o : ObjectId) (f : Object → Object) (p : ObjectId) :
    (s.modify o f).get? p = if p = o then (s.get? p).map f else s.get? p := by
  have h : p = o ↔ o.index = p.index := ⟨fun e => by rw [e], fun e => by cases o; cases p; subst e; rfl⟩
  simp only [modify, get?, Array.getElem?_modify, h]

theorem get?_modify_self {s : Store} {o : ObjectId} {obj : Object} (h : s.get? o = some obj) (f : Object → Object) :
    (s.modify o f).get? o = some (f obj) := by
  rw [get?_modify, if_pos rfl, h]
  rfl

@[simp] theorem size_add (s : Store) (obj : Object) : (s.add obj).size = s.size + 1 := Array.size_push _

@[simp] theorem size_modify (s : Store) (o : ObjectId) (f : Object → Object) : (s.modify o f).size = s.size :=
  Array.size_modify

theorem get?_fresh (s : Store) : s.get? s.fresh = none := Array.getElem?_size

theorem get?_add_of_some {s : Store} {o : ObjectId} {obj : Object} (h : s.get? o = some obj) (new : Object) :
    (s.add new).get? o = some obj := by
  have hne : o ≠ s.fresh := by
    rintro rfl
    rw [get?_fresh] at h
    cases h
  rw [get?_add, if_neg hne, h]

/-- The intrinsics are never lost. -/
theorem has_intrinsic (s : Store) (i : Intrinsic) : s.has i.object = true := decide_eq_true (s.intrinsics i)

theorem link?_of_has {s : Store} {p : ObjectId} (h : s.has p = true) : s.link? (some p) = some p := by
  rw [link?, Option.filter_some, h]
  rfl

/-- A new object whose prototype is an intrinsic is found as it is made. -/
theorem get?_add_linked {obj : Object} {i : Intrinsic} (inherits : obj.proto = some i.object) (s : Store) :
    (s.add obj).get? s.fresh = some obj := by
  have link : s.link? obj.proto = obj.proto := by
    rw [inherits, link?_of_has (s.has_intrinsic i)]
  rw [get?_add, if_pos rfl, link]

theorem own?_add_of_some {s : Store} {o : ObjectId} {k : PropertyKey} {d : Descriptor} (h : s.own? o k = some d)
    (new : Object) : (s.add new).own? o k = some d := by
  obtain ⟨obj, hg, hd⟩ := Option.bind_eq_some_iff.mp h
  rw [own?, get?_add_of_some hg]
  exact hd

theorem has_iff (s : Store) (o : ObjectId) : s.has o = true ↔ ∃ obj, s.get? o = some obj := by
  unfold has size get?
  rw [decide_eq_true_iff]
  exact ⟨fun h => ⟨_, Array.getElem?_eq_getElem h⟩, fun ⟨_, h⟩ => (Array.getElem?_eq_some_iff.mp h).1⟩

/-- A look-up finds the same where all that it may come to has the same property and the same prototype. -/
theorem find_congr {s s' : Store} {k : PropertyKey} {P : ObjectId → Prop} (own : ∀ o, P o → s'.own? o k = s.own? o k)
    (proto : ∀ o, P o → s'.protoOf o = s.protoOf o) (above : ∀ o p, P o → s.protoOf o = some p → P p) {o : ObjectId}
    (ho : P o) (limit : Nat) : s'.find k limit o = s.find k limit o := by
  induction limit generalizing o with
  | zero =>
    unfold find
    rw [own o ho, proto o ho]
    cases s.own? o k with
    | some d => rfl
    | none => cases s.protoOf o <;> rfl
  | succ n ih =>
    unfold find
    rw [own o ho, proto o ho]
    cases s.own? o k with
    | some d => rfl
    | none =>
      cases hp : s.protoOf o with
      | none => rfl
      | some p => exact ih (above o p ho hp)

/-- Stores are told apart by what is found in them. -/
theorem ext_get? {s s' : Store} (h : ∀ p, s.get? p = s'.get? p) : s = s' := by
  have same : s.objects = s'.objects := Array.ext_getElem? fun i => h ⟨i⟩
  cases s
  cases s'
  cases same
  rfl

theorem modify_congr {s : Store} {o : ObjectId} {f g : Object → Object} (h : ∀ obj, s.get? o = some obj → f obj = g obj) :
    s.modify o f = s.modify o g := by
  refine ext_get? fun p => ?_
  rw [get?_modify, get?_modify]
  split
  · rename_i e
    subst e
    exact Option.map_congr h
  · rfl

theorem modify_const {s : Store} {o : ObjectId} {obj : Object} (ho : s.get? o = some obj) :
    (s.modify o fun _ => obj) = s := by
  refine ext_get? fun p => ?_
  rw [get?_modify]
  split
  · rename_i e
    rw [e, ho]
    rfl
  · rfl

/-- A definition replaces the object that accepts it. -/
theorem define?_eq (s : Store) (o : ObjectId) (k : PropertyKey) (d : Descriptor) :
    s.define? o k d = ((s.get? o).bind (·.define? k d)).map fun obj => s.modify o fun _ => obj := rfl

/-- A definition that a store accepts replaces one object. -/
theorem define?_eq_some {s s' : Store} {o : ObjectId} {k : PropertyKey} {d : Descriptor} :
    s.define? o k d = some s' ↔
      ∃ obj obj', s.get? o = some obj ∧ obj.define? k d = some obj' ∧ s' = s.modify o fun _ => obj' := by
  rw [define?_eq]
  simp only [Option.map_eq_some_iff, Option.bind_eq_some_iff]
  constructor
  · rintro ⟨obj', ⟨obj, hg, hd⟩, rfl⟩; exact ⟨obj, obj', hg, hd, rfl⟩
  · rintro ⟨obj, obj', hg, hd, rfl⟩; exact ⟨obj', ⟨obj, hg, hd⟩, rfl⟩

/-- An object that accepts a definition of a new property stores it as it is. -/
theorem define?_new {s : Store} {o : ObjectId} {obj : Object} {k : PropertyKey} {d : Descriptor}
    (ho : s.get? o = some obj) (hd : obj.define? k d = some (obj.insert k d)) :
    s.define? o k d = some (s.modify o (·.insert k d)) := by
  rw [define?_eq, ho, Option.bind_some, hd, Option.map_some]
  refine congrArg some (modify_congr fun obj' ho' => ?_)
  cases ho.symm.trans ho'
  rfl

end Store

theorem Object.nextItem?_frame {obj obj' : Object} {item : Option Value} (h : obj.nextItem? = some (item, obj')) :
    ∃ iteration, obj' = { obj with iteration } := by
  unfold nextItem? at h
  split at h
  · split at h
    · cases h; exact ⟨_, rfl⟩
    · cases h; exact ⟨_, rfl⟩
  · cases h

namespace Store

/-- A store gives the next item of a list iterator by moving on that one object. -/
theorem nextItem?_eq_some {s s' : Store} {v : Value} {item : Option Value} :
    s.nextItem? v = some (item, s') ↔
      ∃ o obj obj', v = .object o ∧ s.get? o = some obj ∧ obj.nextItem? = some (item, obj') ∧
        s' = s.modify o fun _ => obj' := by
  cases v with
  | object o =>
    simp only [nextItem?, Value.object?, bind, Option.bind_some, Option.bind_eq_some_iff, pure, Option.some.injEq,
      Prod.mk.injEq, Value.object.injEq]
    constructor
    · rintro ⟨obj, hg, ⟨item', obj'⟩, hn, rfl, rfl⟩; exact ⟨o, obj, obj', rfl, hg, hn, rfl⟩
    · rintro ⟨p, obj, obj', rfl, hg, hn, rfl⟩; exact ⟨obj, hg, (item, obj'), hn, rfl, rfl⟩
  | _ => simp [nextItem?, Value.object?]

end Store

end EcmaObjects
