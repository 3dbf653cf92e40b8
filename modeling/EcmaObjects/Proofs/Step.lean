/-
  EcmaObjects.Proofs.Step — what can happen to a machine.

  A machine changes by steps (`Machine.Step`): an object is made, or one object accepts a
  definition, is reparented, gives an item of its list or stops being extensible; a symbol
  is numbered; a settlement is opened or decided. Every operation is a sequence of these
  (`Proofs.Public`), so what each step keeps holds after any run.
  - `Step.store_cases`: what a step does to the store.
  - `Step.change`: a step of the machine takes each object by at most one step of its own
    (`Object.Step`), or makes it (`Object.Born`).
  - `Run.object`: an object stays in the store for good, and changes by steps of its own.
  - `Reachable.all`: a property of every object that is made, kept by each step of an
    object, is one of every object that can be reached.
  `Rules` says which steps a run may take: definitions that mix the two kinds of
  properties, and properties stored with no checks.
-/

import EcmaObjects.Proofs.Definition
import EcmaObjects.Proofs.Store
import Mathlib.Logic.Relation

namespace EcmaObjects

/-! ## Steps of one object -/

structure Rules where
  /-- May a definition have data and accessor fields at once? -/
  mixed : Bool
  /-- May a property be stored with no checks? -/
  raw : Bool
  deriving DecidableEq, Repr

/-- Any definition may be asked for; nothing is stored with no checks. -/
def Rules.checked : Rules := ⟨true, false⟩

/-- Every definition asks for one kind of property, or for neither; nothing is stored with no checks. -/
def Rules.strict : Rules := ⟨false, false⟩

def Rules.Allows (R : Rules) (d : Descriptor) : Prop := R.mixed = true ∨ (d.isData && d.isAccessor) = false

/-- What an operation does to an object that is there. -/
inductive Object.Step (R : Rules) : Object → Object → Prop
  | define {obj obj' : Object} {k : PropertyKey} {d : Descriptor} :
      R.Allows d → obj.define? k d = some obj' → Step R obj obj'
  | reparent {obj : Object} (p : Option ObjectId) : obj.extensible = true → Step R obj { obj with proto := p }
  | advance {obj obj' : Object} {item : Option Value} : obj.nextItem? = some (item, obj') → Step R obj obj'
  | prevent (obj : Object) : Step R obj { obj with extensible := false }
  | insert (obj : Object) (k : PropertyKey) (d : Descriptor) : R.raw = true → Step R obj (obj.insert k d)

inductive Object.Born : Object → Prop
  | plain {kind : Kind} (proto : Option ObjectId) (iteration : Option Iteration) :
      kind.isArray = false → Born { kind, proto, iteration }
  | array (values : Array Value) (proto : Option ObjectId) : Born { kind := .array (.ofValues values), proto }
  | function (f : Function) (proto : Option ObjectId) : Born { Object.ofFunction f with proto }
  | error (t : Intrinsic) (message : String) (proto : Option ObjectId) : Born { Object.ofError t message with proto }

theorem Object.born_ofFunction (f : Function) : Born (Object.ofFunction f) := .function f _

theorem Object.born_ofError (t : Intrinsic) (message : String) : Born (Object.ofError t message) := .error t message _

theorem Object.Born.reparented {obj : Object} (h : obj.Born) (p : Option ObjectId) : Born { obj with proto := p } := by
  cases h with
  | plain _ iteration hk => exact .plain p iteration hk
  | array values _ => exact .array values p
  | function f _ => exact .function f p
  | error t message _ => exact .error t message p

theorem Object.Step.isArray {R : Rules} {obj obj' : Object} (h : obj.Step R obj') :
    obj'.kind.isArray = obj.kind.isArray := by
  cases h with
  | define _ hd => exact (define?_frame hd).2.2
  | advance hn =>
    obtain ⟨i, rfl⟩ := nextItem?_frame hn
    rfl
  | reparent | prevent | insert => rfl

theorem Object.Step.function {R : Rules} {obj obj' : Object} (h : obj.Step R obj') : obj'.function = obj.function := by
  cases h with
  | define _ hd => exact (define?_native hd).1
  | advance hn =>
    obtain ⟨i, rfl⟩ := nextItem?_frame hn
    rfl
  | reparent | prevent | insert => rfl

theorem Object.Step.adapter {R : Rules} {obj obj' : Object} (h : obj.Step R obj') {sync : IteratorRecord}
    (ha : obj.iteration = some (.adapter sync)) : obj'.iteration = some (.adapter sync) := by
  cases h with
  | define _ hd => exact (define?_native hd).2.trans ha
  | advance hn =>
    unfold nextItem? at hn
    rw [ha] at hn
    cases hn
  | reparent | prevent | insert => exact ha

/-! ## Steps of the machine -/

inductive Machine.Step (R : Rules) : Machine → Machine → Prop
  | create (m : Machine) {obj : Object} : obj.Born → Step R m { m with store := m.store.add obj }
  | define (m : Machine) {o : ObjectId} {k : PropertyKey} {d : Descriptor} {s : Store} :
      R.Allows d → m.store.define? o k d = some s → Step R m { m with store := s }
  | reparent (m : Machine) {o : ObjectId} {obj : Object} {p : Option ObjectId} {limit : Nat} :
      m.store.get? o = some obj → obj.extensible = true → m.store.reparent? o limit p = some true →
      Step R m { m with store := m.store.modify o fun obj => { obj with proto := m.store.link? p } }
  | advance (m : Machine) {v : Value} {item : Option Value} {s : Store} :
      m.store.nextItem? v = some (item, s) → Step R m { m with store := s }
  | prevent (m : Machine) (o : ObjectId) :
      Step R m { m with store := m.store.modify o fun obj => { obj with extensible := false } }
  | insert (m : Machine) (o : ObjectId) (k : PropertyKey) (d : Descriptor) : R.raw = true →
      Step R m { m with store := m.store.modify o (·.insert k d) }
  | symbol (m : Machine) : Step R m { m with nextSymbol := m.nextSymbol + 1 }
  | settlement (m : Machine) : Step R m { m with settlements := m.settlements.push none }
  | decide (m : Machine) (n : Nat) (c : Completion) :
      Step R m { m with settlements := m.settlements.modify n (· <|> some c) }

abbrev Machine.Run (R : Rules) : Machine → Machine → Prop := Relation.ReflTransGen (Machine.Step R)

def Machine.Reachable (R : Rules) (m : Machine) : Prop := Machine.Run R {} m

variable {R : Rules}

/-- What a step does to the store: nothing, one object more, a step of one object that
    keeps its prototype, or a prototype for one object. -/
theorem Machine.Step.store_cases {m m' : Machine} (h : Machine.Step R m m') :
    m'.store = m.store ∨
    (∃ obj, obj.Born ∧ m'.store = m.store.add obj) ∨
    (∃ o f, (∀ obj, m.store.get? o = some obj → obj.Step R (f obj) ∧ (f obj).proto = obj.proto) ∧
      m'.store = m.store.modify o f) ∨
    ∃ o p limit, (∀ obj, m.store.get? o = some obj → obj.extensible = true) ∧
      m.store.reparent? o limit p = some true ∧
      m'.store = m.store.modify o fun obj => { obj with proto := m.store.link? p } := by
  cases h with
  | create hb => exact Or.inr (Or.inl ⟨_, hb, rfl⟩)
  | define hd hs =>
    obtain ⟨obj, obj', hg, hd', rfl⟩ := Store.define?_eq_some.mp hs
    refine Or.inr (Or.inr (Or.inl ⟨_, _, fun obj₁ h₁ => ?_, rfl⟩))
    cases hg.symm.trans h₁
    exact ⟨.define hd hd', (Object.define?_frame hd').1⟩
  | reparent hg he hr =>
    refine Or.inr (Or.inr (Or.inr ⟨_, _, _, fun obj₁ h₁ => ?_, hr, rfl⟩))
    cases hg.symm.trans h₁
    exact he
  | advance hs =>
    obtain ⟨o, obj, obj', -, hg, hn, rfl⟩ := Store.nextItem?_eq_some.mp hs
    refine Or.inr (Or.inr (Or.inl ⟨_, _, fun obj₁ h₁ => ?_, rfl⟩))
    cases hg.symm.trans h₁
    obtain ⟨i, rfl⟩ := Object.nextItem?_frame hn
    exact ⟨.advance hn, rfl⟩
  | prevent o => exact Or.inr (Or.inr (Or.inl ⟨o, _, fun obj _ => ⟨.prevent obj, rfl⟩, rfl⟩))
  | insert o k d hr => exact Or.inr (Or.inr (Or.inl ⟨o, _, fun obj _ => ⟨.insert obj k d hr, rfl⟩, rfl⟩))
  | symbol | settlement | decide => exact Or.inl rfl

theorem Store.change_of_modify {s : Store} {o p : ObjectId} {f : Object → Object} {obj' : Object}
    (hf : ∀ obj, s.get? p = some obj → obj.Step R (f obj)) (ho : (s.modify p f).get? o = some obj') :
    ∃ obj, s.get? o = some obj ∧ (obj' = obj ∨ obj.Step R obj') := by
  rw [Store.get?_modify] at ho
  split at ho
  · rename_i e
    obtain ⟨obj, hg, rfl⟩ := Option.map_eq_some_iff.mp ho
    exact ⟨obj, hg, Or.inr (hf obj (e ▸ hg))⟩
  · exact ⟨obj', ho, Or.inl rfl⟩

/-- Where an object of the machine after a step comes from: it was there and has made at
    most one step of its own, or it is the one just made. -/
theorem Machine.Step.change {m m' : Machine} (h : Machine.Step R m m') {o : ObjectId} {obj' : Object}
    (ho : m'.store.get? o = some obj') :
    (∃ obj, m.store.get? o = some obj ∧ (obj' = obj ∨ obj.Step R obj')) ∨ (m.store.get? o = none ∧ obj'.Born) := by
  rcases h.store_cases with hs | ⟨obj, hb, hs⟩ | ⟨p, f, hf, hs⟩ | ⟨p, q, limit, he, -, hs⟩
  · rw [hs] at ho
    exact Or.inl ⟨obj', ho, Or.inl rfl⟩
  · rw [hs, Store.get?_add] at ho
    split at ho
    · rename_i e
      cases ho
      exact Or.inr ⟨e ▸ m.store.get?_fresh, hb.reparented _⟩
    · exact Or.inl ⟨obj', ho, Or.inl rfl⟩
  · rw [hs] at ho
    exact Or.inl (Store.change_of_modify (fun obj hg => (hf obj hg).1) ho)
  · rw [hs] at ho
    exact Or.inl (Store.change_of_modify (fun obj hg => .reparent _ (he obj hg)) ho)

theorem Machine.Step.size_le {m m' : Machine} (h : Machine.Step R m m') : m.store.size ≤ m'.store.size := by
  rcases h.store_cases with hs | ⟨obj, -, hs⟩ | ⟨p, f, -, hs⟩ | ⟨p, q, limit, -, -, hs⟩
  · have same : m'.store.size = m.store.size := by rw [hs]
    omega
  · have more : m'.store.size = m.store.size + 1 := by rw [hs, Store.size_add]
    omega
  · have same : m'.store.size = m.store.size := by rw [hs, Store.size_modify]
    omega
  · have same : m'.store.size = m.store.size := by rw [hs, Store.size_modify]
    omega

/-! ## Runs -/

theorem Machine.Run.object {m m' : Machine} (h : Machine.Run R m m') {o : ObjectId} {obj : Object}
    (ho : m.store.get? o = some obj) :
    ∃ obj', m'.store.get? o = some obj' ∧ Relation.ReflTransGen (Object.Step R) obj obj' := by
  induction h with
  | refl => exact ⟨obj, ho, .refl⟩
  | @tail m₁ m₂ _ hs ih =>
    obtain ⟨obj₁, h₁, hr⟩ := ih
    obtain ⟨obj₂, h₂⟩ : ∃ obj₂, m₂.store.get? o = some obj₂ := by
      have hlt : o.index < m₁.store.size := of_decide_eq_true ((m₁.store.has_iff o).mpr ⟨obj₁, h₁⟩)
      exact (m₂.store.has_iff o).mp (decide_eq_true (Nat.lt_of_lt_of_le hlt hs.size_le))
    refine ⟨obj₂, h₂, ?_⟩
    rcases hs.change h₂ with ⟨obj₃, h₃, hc⟩ | ⟨hn, _⟩
    · cases h₁.symm.trans h₃
      rcases hc with rfl | hc
      · exact hr
      · exact hr.tail hc
    · rw [hn] at h₁; cases h₁

theorem Machine.Run.behavior? {m m' : Machine} (h : Machine.Run R m m') {f : Value} {b : Behavior}
    (hb : Act.behavior? m.store f = some b) : Act.behavior? m'.store f = some b := by
  unfold Act.behavior? at hb ⊢
  cases f with
  | object o =>
    obtain ⟨g, hg, rfl⟩ := Option.map_eq_some_iff.mp hb
    obtain ⟨obj, ho, hf⟩ := Option.bind_eq_some_iff.mp hg
    obtain ⟨obj', ho', hrun⟩ := h.object ho
    have kept : obj'.function = some g := by
      clear ho'
      induction hrun with
      | refl => exact hf
      | tail _ hs ih => rw [hs.function, ih]
    have read : (Option.bind (some o) m'.store.get?).bind (·.function) = some g := by
      simp only [Option.bind_some, ho', kept]
    rw [Value.object?, read]
    rfl
  | _ => cases hb

theorem Machine.Run.adapter {m m' : Machine} (h : Machine.Run R m m') {o : ObjectId} {sync : IteratorRecord}
    (ha : m.store.iteration? o = some (.adapter sync)) : m'.store.iteration? o = some (.adapter sync) := by
  obtain ⟨obj, ho, hi⟩ := Option.bind_eq_some_iff.mp ha
  obtain ⟨obj', ho', hrun⟩ := h.object ho
  have kept : obj'.iteration = some (.adapter sync) := by
    clear ho'
    induction hrun with
    | refl => exact hi
    | tail _ hs ih => exact hs.adapter ih
  rw [Store.iteration?, ho']
  exact kept

theorem Machine.Run.isArray {m m' : Machine} (h : Machine.Run R m m') {o : ObjectId}
    (ha : m.store.isArray (.object o) = true) : ∃ obj e, m'.store.get? o = some obj ∧ obj.kind = .array e := by
  obtain ⟨obj, ho, harr⟩ : ∃ obj, m.store.get? o = some obj ∧ obj.kind.isArray = true := by
    cases ho : m.store.get? o with
    | none => simp [Store.isArray, Value.object?, ho] at ha
    | some obj => exact ⟨obj, rfl, by simpa [Store.isArray, Value.object?, ho] using ha⟩
  obtain ⟨obj', ho', hrun⟩ := h.object ho
  have harr' : obj'.kind.isArray = true := by
    clear ho'
    induction hrun with
    | refl => exact harr
    | tail _ hs ih => rw [hs.isArray, ih]
  cases hk : obj'.kind with
  | array e => exact ⟨obj', e, ho', hk⟩
  | _ => rw [hk] at harr'; cases harr'

/-- What every object has when it is made and keeps by each step, every reachable object has. -/
theorem Machine.Reachable.all {P : Object → Prop} (first : ∀ obj ∈ Realm.objects, P obj)
    (born : ∀ obj, obj.Born → P obj) (step : ∀ obj obj', obj.Step R obj' → P obj → P obj') {m : Machine}
    (h : m.Reachable R) {o : ObjectId} {obj : Object} (ho : m.store.get? o = some obj) : P obj := by
  induction h generalizing obj with
  | refl => exact first obj (Array.mem_of_getElem? ho)
  | tail _ hs ih =>
    rcases hs.change ho with ⟨obj₁, h₁, rfl | hc⟩ | ⟨-, hb⟩
    · exact ih h₁
    · exact step _ _ hc (ih h₁)
    · exact born _ hb

end EcmaObjects
