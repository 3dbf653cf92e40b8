/-
  EcmaObjects.Proofs.Completeness — what is seen of a property is complete, and of one kind.

  A definition may leave fields out. What an object then stores has all the fields of its
  kind and none of the other (`Object.Complete`), and so have the properties that arrays and
  string wrappers show without storing them: `Descriptor.Whole`. So a found property is read
  and written by its kind, with no default for a field that is not there: `Attributes.read`,
  `Attributes.write`.
  - `visible_properties_are_complete`: this is so after any run of operations, where every
    definition asks for one kind of property.
-/

import EcmaObjects.Proofs.Chain
import EcmaObjects.Proofs.Reading
import EcmaObjects.Proofs.Validation

namespace EcmaObjects

variable {σ α : Type}

/-! ## Whole descriptors -/

/-- Both shared attributes, and all the fields of the one kind and none of the other. -/
structure Descriptor.Whole (d : Descriptor) : Prop where
  enumerable : d.enumerable.isSome = true
  configurable : d.configurable.isSome = true
  fields : (d.value.isSome = true ∧ d.writable.isSome = true ∧ d.getter = none ∧ d.setter = none) ∨
    (d.getter.isSome = true ∧ d.setter.isSome = true ∧ d.value = none ∧ d.writable = none)

namespace Attributes

theorem whole (p : Attributes) : p.descriptor.Whole := by
  cases p with
  | data v w e c => exact ⟨rfl, rfl, Or.inl ⟨rfl, rfl, rfl, rfl⟩⟩
  | accessor g s e c => exact ⟨rfl, rfl, Or.inr ⟨rfl, rfl, rfl, rfl⟩⟩

theorem isAccessor_eq_not_isData (p : Attributes) : p.descriptor.isAccessor = !p.descriptor.isData := by
  cases p <;> rfl

/-! ## Reading and writing by the kind -/

/-- The value of a data property, or what the getter gives. -/
def read (receiver : Value) : Attributes → Act σ Value
  | data v _ _ _ => return v
  | accessor g _ _ _ => if g = .undefined then return .undefined else Act.call g receiver []

/-- A data property that is not read-only is written on the receiver, an accessor by its setter. -/
def write (receiver : Value) (k : PropertyKey) (v : Value) : Attributes → Act σ Bool
  | data _ writable _ _ => if writable then Act.assign receiver k v else return false
  | accessor _ s _ _ =>
    if s = .undefined then return false
    else do
      let _ ← Act.call s receiver [v]
      return true

theorem valueOf_eq_read (p : Attributes) (receiver : Value) :
    (Act.valueOf p.descriptor receiver : Act σ Value) = p.read receiver := by
  cases p with
  | data v w e c => rfl
  | accessor g s e c => cases g <;> rfl

theorem assignThrough_eq_write (p : Attributes) (receiver : Value) (k : PropertyKey) (v : Value) :
    (Act.assignThrough p.descriptor receiver k v : Act σ Bool) = p.write receiver k v := by
  cases p with
  | data u w e c => cases w <;> rfl
  | accessor g s e c => cases s <;> rfl

end Attributes

/-! ## What an object shows -/

/-- Stored or not, a property has the attributes of its kind. -/
theorem Object.Complete.own {obj : Object} (h : obj.Complete) {k : PropertyKey} {d : Descriptor}
    (hk : obj.own? k = some d) : ∃ p : Attributes, d = p.descriptor := by
  rcases own?_eq_some.mp hk with exotic | ⟨-, stored⟩
  · obtain ⟨v, w, e, c, rfl⟩ := exotic?_data exotic
    exact ⟨.data v w e c, rfl⟩
  · exact h k d stored

theorem Machine.Reachable.own_complete {m : Machine} (h : m.Reachable .strict) {o : ObjectId} {k : PropertyKey}
    {d : Descriptor} (hk : m.store.own? o k = some d) : ∃ p : Attributes, d = p.descriptor := by
  obtain ⟨obj, ho, own⟩ := Option.bind_eq_some_iff.mp hk
  exact (h.complete ho).own own

/-! ## What a walk finds -/

namespace Store

variable {s : Store} {k : PropertyKey} {o : ObjectId} {d : Descriptor}

theorem Reaches.owned {n : Nat} {r : Option Descriptor} (h : s.Reaches k o n r) (hr : r = some d) :
    ∃ p, s.own? p k = some d := by
  induction h with
  | @owner o d' hk =>
    cases hr
    exact ⟨o, hk⟩
  | last => cases hr
  | link _ _ _ ih => exact ih hr

/-- What reading or writing finds is an own property of some object. -/
theorem Grounded.found_owned (h : s.Grounded) {limit : Nat}
    (found : s.find k limit o = .found d ∨ s.findForWrite k limit o = .found d) : ∃ p, s.own? p k = some d := by
  obtain ⟨links, ends⟩ := h.ends o
  obtain ⟨n, r, reaches⟩ := ends.reaches k
  apply reaches.owned
  rw [reaches.find, reaches.findForWrite] at found
  cases r with
  | none => rcases found with found | found <;> split at found <;> cases found
  | some d' => rcases found with found | found <;> split at found <;> cases found <;> rfl

end Store

namespace Act

variable {env : Env σ} {w : World σ} {o : ObjectId} {k : PropertyKey} {d : Descriptor}

theorem set_of_findForWrite (h : w.machine.store.findForWrite k env.maxDepth o = .found d) (v receiver : Value) :
    set o k v receiver env w = assignThrough d receiver k v env w := by
  simp only [set, bind_apply, store_apply, maxDepth_apply, h]

end Act

/-! ## Any run -/

/-- What a world shows of its properties, and how it reads and writes those that it finds. -/
structure CompletenessLaw (env : Env σ) (w : World σ) : Prop where
  whole {o : ObjectId} {k : PropertyKey} {d : Descriptor} : w.machine.store.own? o k = some d → d.Whole
  oneKind {o : ObjectId} {k : PropertyKey} {d : Descriptor} :
    w.machine.store.own? o k = some d → d.isAccessor = !d.isData
  read {o : ObjectId} {k : PropertyKey} {d : Descriptor} : w.machine.store.find k env.maxDepth o = .found d →
    ∃ p : Attributes, d = p.descriptor ∧ ∀ receiver, Act.get o k receiver env w = p.read receiver env w
  write {o : ObjectId} {k : PropertyKey} {d : Descriptor} :
    w.machine.store.findForWrite k env.maxDepth o = .found d →
    ∃ p : Attributes, d = p.descriptor ∧ ∀ v receiver, Act.set o k v receiver env w = p.write receiver k v env w

theorem Machine.Reachable.completenessLaw {w : World σ} (h : w.machine.Reachable .strict) (env : Env σ) :
    CompletenessLaw env w := by
  constructor
  · intro o k d hk
    obtain ⟨p, rfl⟩ := h.own_complete hk
    exact p.whole
  · intro o k d hk
    obtain ⟨p, rfl⟩ := h.own_complete hk
    exact p.isAccessor_eq_not_isData
  · intro o k d found
    obtain ⟨q, hq⟩ := h.grounded.found_owned (Or.inl found)
    obtain ⟨p, rfl⟩ := h.own_complete hq
    refine ⟨p, rfl, fun receiver => ?_⟩
    rw [Act.get_of_find found, p.valueOf_eq_read]
  · intro o k d found
    obtain ⟨q, hq⟩ := h.grounded.found_owned (Or.inr found)
    obtain ⟨p, rfl⟩ := h.own_complete hq
    refine ⟨p, rfl, fun v receiver => ?_⟩
    rw [Act.set_of_findForWrite found, p.assignThrough_eq_write]

/-- However many definitions leave fields out: after any run every visible property is
    complete and of one kind, and is read and written by that kind. -/
theorem visible_properties_are_complete {host : Host σ} (hh : host.Public .strict) (config : Config) (budget : Budget)
    {w : World σ} (hw : w.machine.Reachable .strict) {x : Act σ α} (hx : x.Public .strict) (env : Env σ) :
    CompletenessLaw env (x.run host config budget w).world := by
  have after : (x.run host config budget w).world.machine.Reachable .strict :=
    hw.trans (run_steps hh hx config budget w)
  exact after.completenessLaw env

/-- A hidden data property is redefined with a setter and nothing else; it has a getter then too. -/
theorem a_setter_by_itself_makes_a_whole_accessor :
    let w : World Unit := ⟨.withProperty { value := some .null, configurable := some true }, ()⟩
    let o := Realm.store.fresh
    let x : Act Unit Bool := Act.define o "x" { setter := some (.object o) }
    let env : Env Unit := .ofHost idle {} ⟨64, 64⟩
    w.machine.Reachable .strict ∧ x.Public .strict ∧
      (x.storeAfter idle {} ⟨64, 64⟩ w).own? o "x" =
        some (Attributes.accessor .undefined (.object o) false true).descriptor ∧
      CompletenessLaw env (x.run idle {} ⟨64, 64⟩ w).world := by
  intro w o x env
  have reachable : w.machine.Reachable .strict := Machine.withProperty_reachable (Or.inr rfl)
  have isPublic : x.Public .strict := .define _ _ (Or.inr rfl)
  have after : (x.storeAfter idle {} ⟨64, 64⟩ w).own? o "x" =
      some (Attributes.accessor .undefined (.object o) false true).descriptor := by decide
  exact ⟨reachable, isPublic, after,
    visible_properties_are_complete (fun _ _ _ => .ret _) {} ⟨64, 64⟩ reachable isPublic env⟩

end EcmaObjects
