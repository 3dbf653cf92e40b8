/-
  EcmaObjects.Proofs.Wrapper — the object that a string becomes shows the string for good.

  A wrapper shows the length of its string and one property a code unit (`Text.Shows`),
  all of them read-only and permanent. What it wraps is fixed when it is made
  (`Object.Step.kind`), so no run changes these properties, and a definition at one of them
  is granted only where it repeats what is there (`Descriptor.Repeats`).
  At any other key the wrapper is an ordinary object: in the world where it is one
  (`World.unwrapped`) every operation at the key, on any object, ends alike or makes the
  same call (`Act.AsOrdinary`).
  - `wrapper_law`: all of this of the wrapper of every string that is not longer than an
    array can be, after any run.
-/

import EcmaObjects.Proofs.Array
import EcmaObjects.Proofs.Validation

namespace EcmaObjects

open PropertyKey (ofIndex)

variable {R : Rules} {σ α : Type}

/-! ## The kind of an object -/

/-- What an object wraps is fixed when it is made; only an array changes what its kind holds. -/
theorem Object.Step.kind {obj obj' : Object} (h : obj.Step R obj') (ha : obj.kind.isArray = false) :
    obj'.kind = obj.kind := by
  cases h with
  | define _ hd =>
    rcases define?_cases hd with ⟨e, e', x, hk, -, -, rfl⟩ | ⟨t, x, c, -, -, -, -, rfl⟩ | ⟨-, -, t, -, rfl⟩
    · rw [hk] at ha
      cases ha
    · rfl
    · rfl
  | advance hn =>
    obtain ⟨i, rfl⟩ := nextItem?_frame hn
    rfl
  | reparent | prevent | insert => rfl

theorem Machine.Run.kind {m m' : Machine} (h : Machine.Run R m m') {o : ObjectId} {obj : Object}
    (ho : m.store.get? o = some obj) (ha : obj.kind.isArray = false) :
    ∃ obj', m'.store.get? o = some obj' ∧ obj'.kind = obj.kind := by
  obtain ⟨obj', ho', hrun⟩ := h.object ho
  refine ⟨obj', ho', ?_⟩
  clear ho'
  induction hrun with
  | refl => rfl
  | tail _ hs ih => rw [hs.kind (by rw [ih, ha]), ih]

/-! ## What a string shows -/

namespace Text

/-- The keys of the properties that a wrapper takes from its string. -/
def Shows (t : Text) (k : PropertyKey) : Prop := k = "length" ∨ ∃ i < t.length, k = ofIndex i

theorem own?_index {t : Text} {i : ℕ} {u : UInt16} (h : t.units[i]? = some u) :
    t.own? (.index i) = some (.data (.string ⟨[u]⟩) false true false) := by
  obtain ⟨lt, rfl⟩ := List.getElem?_eq_some_iff.mp h
  have unit : t.slice i (i + 1) = ⟨[t.units[i]]⟩ := by
    rw [slice, List.drop_take, Nat.add_sub_cancel_left, List.drop_eq_getElem_cons lt]
    rfl
  have inside : i < t.length := lt
  rw [own?, if_pos inside, unit]

/-- What a string shows is read-only and permanent data. -/
theorem own?_cases {t : Text} {x : ExoticKey} {c : Descriptor} (h : t.own? x = some c) :
    ∃ v e, c = .data v false e false := by
  cases x with
  | length =>
    cases h
    exact ⟨_, _, rfl⟩
  | index i =>
    rw [own?] at h
    split at h
    · cases h
      exact ⟨_, _, rfl⟩
    · cases h

theorem shows_of_own? {t : Text} {k : PropertyKey} {x : ExoticKey} {c : Descriptor} (hx : k.exotic? = some x)
    (h : t.own? x = some c) : t.Shows k := by
  cases x with
  | length => exact Or.inl (PropertyKey.exotic?_inj hx rfl)
  | index i =>
    rw [own?] at h
    split at h
    · exact Or.inr ⟨i, by assumption, PropertyKey.eq_ofIndex hx⟩
    · cases h

theorem Shows.own? {t : Text} {k : PropertyKey} (h : t.Shows k) (fits : t.length ≤ maxArrayLength) :
    ∃ x c, k.exotic? = some x ∧ t.own? x = some c := by
  rcases h with rfl | ⟨i, lt, rfl⟩
  · exact ⟨.length, _, rfl, rfl⟩
  · exact ⟨.index i, _, PropertyKey.exotic?_ofIndex (by omega), if_pos lt⟩

end Text

/-- What a wrapper shows at the keys of its string. -/
theorem Object.own?_of_wrapped {obj : Object} {t : Text} (hk : obj.kind = .string (some t)) {k : PropertyKey}
    {x : ExoticKey} {c : Descriptor} (hx : k.exotic? = some x) (h : t.own? x = some c) : obj.own? k = some c := by
  simp [own?, exotic?, hk, hx, h]

theorem Object.ordinaryAt_of_wrapped {obj : Object} {t : Text} (hk : obj.kind = .string (some t)) {k : PropertyKey}
    (h : ¬ t.Shows k) : obj.OrdinaryAt k := by
  refine ⟨by simp [hk, Kind.isArray], ?_⟩
  cases hx : k.exotic? with
  | none => simp [exotic?, hk, hx]
  | some x =>
    cases hc : t.own? x with
    | none => simp [exotic?, hk, hx, hc]
    | some c => exact absurd (Text.shows_of_own? hx hc) h

/-! ## Definitions of what is there -/

/-- Every field that `d` has is the one that is there. -/
structure Descriptor.Repeats (c d : Descriptor) : Prop where
  value {v : Value} : d.value = some v → ∃ u, c.value = some u ∧ u.same v = true
  writable {b : Bool} : d.writable = some b → c.writable = some b
  getter {v : Value} : d.getter = some v → ∃ u, c.getter = some u ∧ u.same v = true
  setter {v : Value} : d.setter = some v → ∃ u, c.setter = some u ∧ u.same v = true
  enumerable {b : Bool} : d.enumerable = some b → c.enumerable = some b
  configurable {b : Bool} : d.configurable = some b → c.configurable = some b

theorem Value.same_comm (v w : Value) : v.same w = w.same v := by
  rw [Bool.eq_iff_iff, same_iff, same_iff, eq_comm]

/-- Read-only and permanent data admits what repeats it. -/
theorem Descriptor.admits_iff_repeats {v : Value} {e : Bool} {d : Descriptor} (hd : d.Unmixed) :
    (data v false e false).admits d = true ↔ (data v false e false).Repeats d := by
  have judged : (data v false e false).admits d = !(Attributes.data v false e false).forbids d :=
    Attributes.admits_eq_not_forbids (.data v false e false) hd
  -- What asks for an accessor is no data then, so only the accessor counts.
  have kind : ((d.isData || d.isAccessor) && d.isAccessor != false) = d.isAccessor := by
    cases d.isData <;> cases d.isAccessor <;> rfl
  have granted : (data v false e false).admits d = true ↔ d.configurable ≠ some true ∧
      d.enumerable.any (· != e) = false ∧ d.isAccessor = false ∧ d.writable ≠ some true ∧
      d.value.any (!·.isSame v) = false := by
    rw [judged]
    simp only [Attributes.forbids, Attributes.configurable, Attributes.enumerable, Attributes.isAccessor, kind,
      Bool.not_false, Bool.true_and, Bool.not_eq_true', Bool.or_eq_false_iff, beq_eq_false_iff_ne, and_assoc]
  rw [granted]
  constructor
  · intro ⟨configurable, enumerable, accessor, writable, value⟩
    obtain ⟨getter, setter⟩ := no_accessor_fields accessor
    refine ⟨?_, ?_, by simp [getter], by simp [setter], ?_, ?_⟩
    · intro u hu
      refine ⟨v, rfl, ?_⟩
      rw [Value.same_comm, Value.same_eq_isSame]
      simpa [hu] using value
    · intro b hb
      cases b with
      | true => exact absurd hb writable
      | false => rfl
    · intro b hb
      have same : b = e := by simpa [hb] using enumerable
      rw [same]
      rfl
    · intro b hb
      cases b with
      | true => exact absurd hb configurable
      | false => rfl
  · intro r
    refine ⟨?_, ?_, ?_, ?_, ?_⟩
    · intro hb
      cases r.configurable hb
    · cases hb : d.enumerable with
      | none => rfl
      | some b =>
        have same : e = b := Option.some.inj (r.enumerable hb)
        simp [same]
    · have getter : d.getter = none := by
        cases hu : d.getter with
        | none => rfl
        | some u =>
          obtain ⟨u', absent, -⟩ := r.getter hu
          cases absent
      have setter : d.setter = none := by
        cases hu : d.setter with
        | none => rfl
        | some u =>
          obtain ⟨u', absent, -⟩ := r.setter hu
          cases absent
      simp [isAccessor, getter, setter]
    · intro hb
      cases r.writable hb
    · cases hu : d.value with
      | none => rfl
      | some u =>
        obtain ⟨v', hv, same⟩ := r.value hu
        cases hv
        rw [Value.same_comm, Value.same_eq_isSame] at same
        simp [same]

/-! ## The world where the object is ordinary -/

def Object.unwrapped (obj : Object) : Object := { obj with kind := .ordinary }

def Store.unwrapped (s : Store) (o : ObjectId) : Store := s.modify o Object.unwrapped

def World.unwrapped (w : World σ) (o : ObjectId) : World σ :=
  { w with machine := { w.machine with store := w.machine.store.unwrapped o } }

def Result.unwrapped (o : ObjectId) : Result σ α → Result σ α
  | .ok a w => .ok a (w.unwrapped o)
  | .abrupt c w => .abrupt c (w.unwrapped o)
  | .fault f w => .fault f (w.unwrapped o)

namespace Object

variable {obj : Object} {k : PropertyKey}

theorem own?_unwrapped (h : obj.OrdinaryAt k) : obj.unwrapped.own? k = obj.own? k := (own?_of_ordinaryAt h).symm

theorem define?_unwrapped (h : obj.OrdinaryAt k) (d : Descriptor) :
    obj.unwrapped.define? k d = (obj.define? k d).map unwrapped := by
  rw [define?_of_ordinaryAt h]
  show obj.unwrapped.defineOrdinary? k d = _
  unfold defineOrdinary?
  rw [Option.map_map]
  rfl

end Object

namespace Store

variable {s : Store} {o : ObjectId}

theorem get?_unwrapped (s : Store) (o p : ObjectId) :
    (s.unwrapped o).get? p = if p = o then (s.get? p).map Object.unwrapped else s.get? p := get?_modify s o _ p

/-- Unwrapping shows nowhere but in the kind of the one object. -/
theorem bind_get?_unwrapped {β : Type} (f : Object → Option β) (h : ∀ obj, s.get? o = some obj → f obj.unwrapped = f obj)
    (p : ObjectId) : ((s.unwrapped o).get? p).bind f = (s.get? p).bind f := by
  rw [get?_unwrapped]
  split
  · rename_i e
    subst e
    cases hp : s.get? p with
    | none => rfl
    | some obj => exact h obj hp
  · rfl

theorem protoOf_unwrapped (s : Store) (o p : ObjectId) : (s.unwrapped o).protoOf p = s.protoOf p :=
  bind_get?_unwrapped _ (fun _ _ => rfl) p

section
variable {obj : Object} {k : PropertyKey} (ho : s.get? o = some obj) (hk : obj.OrdinaryAt k)
include ho hk

theorem own?_unwrapped (p : ObjectId) : (s.unwrapped o).own? p k = s.own? p k := by
  refine bind_get?_unwrapped _ ?_ p
  intro obj₁ h₁
  cases ho.symm.trans h₁
  exact Object.own?_unwrapped hk

theorem find_unwrapped (limit : ℕ) (p : ObjectId) : (s.unwrapped o).find k limit p = s.find k limit p :=
  find_congr (P := fun _ => True) (fun p _ => own?_unwrapped ho hk p) (fun p _ => protoOf_unwrapped s o p)
    (fun _ _ _ _ => trivial) trivial limit

theorem findForWrite_unwrapped (limit : ℕ) (p : ObjectId) :
    (s.unwrapped o).findForWrite k limit p = s.findForWrite k limit p := by
  induction limit generalizing p with
  | zero =>
    unfold findForWrite
    rw [own?_unwrapped ho hk]
  | succ n ih =>
    unfold findForWrite
    rw [own?_unwrapped ho hk, protoOf_unwrapped]
    cases s.own? p k with
    | some d => rfl
    | none =>
      cases s.protoOf p with
      | none => rfl
      | some q => exact ih q

theorem define?_unwrapped (p : ObjectId) (d : Descriptor) :
    (s.unwrapped o).define? p k d = (s.define? p k d).map (·.unwrapped o) := by
  rw [define?_eq, define?_eq, get?_unwrapped, Option.map_map]
  by_cases e : p = o
  · subst e
    rw [if_pos rfl, ho]
    show (obj.unwrapped.define? k d).map _ = _
    rw [Object.define?_unwrapped hk, Option.map_map]
    refine Option.map_congr fun obj' _ => ext_get? fun q => ?_
    simp only [Function.comp_apply, unwrapped, get?_modify]
    split
    · cases s.get? q <;> rfl
    · rfl
  · rw [if_neg e]
    refine Option.map_congr fun obj' _ => ext_get? fun q => ?_
    simp only [Function.comp_apply, unwrapped, get?_modify]
    by_cases hq : q = p
    · subst hq
      simp [e]
    · simp [hq]

end

theorem add_unwrapped (s : Store) (o : ObjectId) (ho : s.has o = true) (new : Object) :
    (s.unwrapped o).add new = (s.add new).unwrapped o := by
  have size : (s.unwrapped o).size = s.size := size_modify s o _
  have fresh : (s.unwrapped o).fresh = s.fresh := congrArg ObjectId.mk size
  have link : (s.unwrapped o).link? = s.link? := by
    funext proto
    unfold link? has
    rw [size]
  have other : o ≠ s.fresh := by
    rintro rfl
    simp [has, Store.fresh] at ho
  refine ext_get? fun p => ?_
  rw [get?_add, get?_unwrapped, get?_unwrapped, get?_add, fresh, link]
  by_cases e : p = s.fresh
  · rw [if_pos e, if_pos e, if_neg (e ▸ Ne.symm other)]
  · rw [if_neg e, if_neg e]

end Store

/-! ## What is done at a key -/

namespace Act

/-- The operations at a key, on any object. -/
inductive At (k : PropertyKey) : {α : Type} → Act σ α → Prop
  | getOwn (p : ObjectId) : At k (getOwn p k)
  | hasOwn (p : ObjectId) : At k (hasOwn p k)
  | define (p : ObjectId) (d : Descriptor) : At k (define p k d)
  | createData (p : ObjectId) (v : Value) : At k (createData p k v)
  | get (p : ObjectId) (receiver : Value) : At k (get p k receiver)
  | set (p : ObjectId) (v receiver : Value) : At k (set p k v receiver)

/-- The action does what it would do if the object were ordinary: it ends alike, or it goes
    on with the same call. -/
inductive AsOrdinary (o : ObjectId) (env : Env σ) (w : World σ) (x : Act σ α) : Prop
  | ends : x env (w.unwrapped o) = (x env w).unwrapped o → AsOrdinary o env w x
  | calls (f this : Value) (args : List Value) (answer : Value → α) :
      (∀ w' ∈ [w, w.unwrapped o], x env w' = (do return answer (← call f this args) : Act σ α) env w') → AsOrdinary o env w x

variable {env : Env σ} {w : World σ} {o : ObjectId} {obj : Object} {k : PropertyKey}

theorem throwCause_unwrapped (ho : w.machine.store.has o = true) (c : Cause) :
    (throwCause c : Act σ α) env (w.unwrapped o) = ((throwCause c : Act σ α) env w).unwrapped o := by
  have size : (w.unwrapped o).machine.store.size = w.machine.store.size := Store.size_modify _ o _
  have fresh : (w.unwrapped o).machine.store.fresh = w.machine.store.fresh := congrArg ObjectId.mk size
  have thrown : (w.unwrapped o).withError c = (w.withError c).unwrapped o :=
    congrArg (fun s => (⟨{ w.machine with store := s }, w.host⟩ : World σ)) (Store.add_unwrapped _ o ho _)
  rw [throwCause_apply, throwCause_apply, fresh, thrown]
  rfl

/-- What follows a look at the store that shows the same either way. -/
theorem AsOrdinary.of_apply {x y : Act σ α} (h : ∀ w' ∈ [w, w.unwrapped o], x env w' = y env w')
    (hy : AsOrdinary o env w y) : AsOrdinary o env w x := by
  have here := h w (by simp)
  have there := h (w.unwrapped o) (by simp)
  cases hy with
  | ends e => exact .ends (by rw [here, there, e])
  | calls f this args answer e => exact .calls f this args answer fun w' hw' => (h w' hw').trans (e w' hw')

theorem valueOf_asOrdinary (d : Descriptor) (receiver : Value) : AsOrdinary o env w (valueOf d receiver) := by
  unfold valueOf
  split
  · split
    · exact .ends rfl
    · refine .calls (d.getter.getD .undefined) receiver [] id fun w' _ => ?_
      show call (d.getter.getD .undefined) receiver [] env w' = _
      rw [bind_apply]
      cases call (d.getter.getD .undefined) receiver [] env w' <;> rfl
  · exact .ends rfl

section
variable (ho : w.machine.store.get? o = some obj) (hk : obj.OrdinaryAt k)
include ho hk

theorem define_unwrapped (p : ObjectId) (d : Descriptor) :
    define p k d env (w.unwrapped o) = (define p k d env w).unwrapped o := by
  have step : (w.unwrapped o).machine.store.define? p k d = (w.machine.store.define? p k d).map (·.unwrapped o) :=
    Store.define?_unwrapped ho hk p d
  rw [define_apply, define_apply, step]
  cases w.machine.store.define? p k d <;> rfl

theorem assign_unwrapped (receiver v : Value) :
    assign receiver k v env (w.unwrapped o) = (assign receiver k v env w).unwrapped o := by
  cases receiver with
  | object p =>
    have own : (w.unwrapped o).machine.store.own? p k = w.machine.store.own? p k := Store.own?_unwrapped ho hk p
    simp only [assign, getOwn, bind_apply, store_apply, pure_apply, own, createData]
    cases w.machine.store.own? p k with
    | none => exact define_unwrapped ho hk p _
    | some c =>
      dsimp only
      split
      · rfl
      · exact define_unwrapped ho hk p _
  | _ => rfl

theorem assignThrough_asOrdinary (d : Descriptor) (receiver v : Value) :
    AsOrdinary o env w (assignThrough d receiver k v) := by
  unfold assignThrough
  split
  · split
    · exact .ends rfl
    · exact .ends (assign_unwrapped ho hk receiver v)
  · split
    · exact .ends rfl
    · exact .calls _ receiver [v] (fun _ => true) fun _ _ => rfl

theorem get_asOrdinary (p : ObjectId) (receiver : Value) : AsOrdinary o env w (get p k receiver) := by
  have found : (w.unwrapped o).machine.store.find k env.maxDepth p = w.machine.store.find k env.maxDepth p :=
    Store.find_unwrapped ho hk _ p
  have there : w.machine.store.has o = true := (Store.has_iff _ o).mpr ⟨obj, ho⟩
  cases hs : w.machine.store.find k env.maxDepth p with
  | found d =>
    refine .of_apply ?_ (valueOf_asOrdinary d receiver)
    intro w' hw'
    rcases List.mem_pair.mp hw' with rfl | rfl
    · simp only [get, bind_apply, store_apply, maxDepth_apply, hs]
    · simp only [get, bind_apply, store_apply, maxDepth_apply, found, hs]
  | absent => exact .ends (by simp only [get, bind_apply, store_apply, maxDepth_apply, found, hs]; rfl)
  | tooDeep =>
    refine .ends ?_
    simp only [get, bind_apply, store_apply, maxDepth_apply, found, hs]
    exact throwCause_unwrapped there _

theorem set_asOrdinary (p : ObjectId) (v receiver : Value) : AsOrdinary o env w (set p k v receiver) := by
  have found : (w.unwrapped o).machine.store.findForWrite k env.maxDepth p =
      w.machine.store.findForWrite k env.maxDepth p := Store.findForWrite_unwrapped ho hk _ p
  have there : w.machine.store.has o = true := (Store.has_iff _ o).mpr ⟨obj, ho⟩
  cases hs : w.machine.store.findForWrite k env.maxDepth p with
  | found d =>
    refine .of_apply ?_ (assignThrough_asOrdinary ho hk d receiver v)
    intro w' hw'
    rcases List.mem_pair.mp hw' with rfl | rfl
    · simp only [set, bind_apply, store_apply, maxDepth_apply, hs]
    · simp only [set, bind_apply, store_apply, maxDepth_apply, found, hs]
  | absent =>
    refine .ends ?_
    simp only [set, bind_apply, store_apply, maxDepth_apply, found, hs]
    exact assign_unwrapped ho hk receiver v
  | tooDeep =>
    refine .ends ?_
    simp only [set, bind_apply, store_apply, maxDepth_apply, found, hs]
    exact throwCause_unwrapped there _

theorem At.asOrdinary {x : Act σ α} (hx : At k x) : AsOrdinary o env w x := by
  have own (p : ObjectId) : (w.unwrapped o).machine.store.own? p k = w.machine.store.own? p k :=
    Store.own?_unwrapped ho hk p
  cases hx with
  | getOwn p => exact .ends (by simp only [Act.getOwn, bind_apply, store_apply, pure_apply, own]; rfl)
  | hasOwn p => exact .ends (by simp only [Act.hasOwn, bind_apply, store_apply, pure_apply, own]; rfl)
  | define p d => exact .ends (define_unwrapped ho hk p d)
  | createData p v => exact .ends (define_unwrapped ho hk p _)
  | get p receiver => exact get_asOrdinary ho hk p receiver
  | set p v receiver => exact set_asOrdinary ho hk p v receiver

end
end Act

/-! ## The law of a wrapper -/

/-- The code units of the string that a property holds. -/
def Store.unitsAt (s : Store) (o : ObjectId) (k : PropertyKey) : List UInt16 :=
  match (s.own? o k).bind (·.value) with
  | some (.string t) => t.units
  | _ => []

/-- The object shows the string, and is an ordinary one in everything else. -/
structure World.Mirrors (w : World σ) (o : ObjectId) (t : Text) : Prop where
  length : ∃ v, v.IsNatural t.length ∧ w.machine.store.own? o "length" = some (.data v false false false)
  unit {i : ℕ} {u : UInt16} : t.units[i]? = some u →
    w.machine.store.own? o (ofIndex i) = some (.data (.string ⟨[u]⟩) false true false)
  gives_back : ((List.range t.length).flatMap fun i => w.machine.store.unitsAt o (ofIndex i)) = t.units
  /-- A definition of what is shown is granted where it repeats it, and changes nothing either way. -/
  define {k : PropertyKey} {c d : Descriptor} (env : Env σ) : t.Shows k → w.machine.store.own? o k = some c →
    d.Unmixed → ∃ granted, Act.define o k d env w = .ok granted w ∧ (granted = true ↔ c.Repeats d)
  others {k : PropertyKey} (env : Env σ) : ¬ t.Shows k → ∀ {α : Type} {x : Act σ α}, Act.At k x →
    Act.AsOrdinary o env w x

/-- A list is its items in a row. -/
theorem flatMap_range_getElem? {β : Type} (l : List β) : ((List.range l.length).flatMap fun i => l[i]?.toList) = l := by
  induction l with
  | nil => rfl
  | cons b l ih =>
    rw [List.length_cons, List.range_succ_eq_map, List.flatMap_cons, List.flatMap_map]
    exact congrArg (b :: ·) ih

theorem World.mirrors_of_kind {w : World σ} {o : ObjectId} {obj : Object} {t : Text}
    (ho : w.machine.store.get? o = some obj) (hk : obj.kind = .string (some t)) (fits : t.length ≤ maxArrayLength) :
    w.Mirrors o t := by
  have own (k : PropertyKey) : w.machine.store.own? o k = obj.own? k := Store.own?_of_get? ho k
  have unit {i : ℕ} {u : UInt16} (h : t.units[i]? = some u) :
      w.machine.store.own? o (ofIndex i) = some (.data (.string ⟨[u]⟩) false true false) := by
    have lt : i < t.length := (List.getElem?_eq_some_iff.mp h).1
    rw [own]
    exact Object.own?_of_wrapped hk (PropertyKey.exotic?_ofIndex (by omega)) (Text.own?_index h)
  refine ⟨⟨_, Value.isNatural_ofNat fits, ?length⟩, unit, ?gives_back, ?define, ?others⟩
  case length =>
    rw [own]
    exact Object.own?_of_wrapped hk (x := .length) rfl rfl
  case gives_back =>
    have each : ∀ i ∈ List.range t.length, w.machine.store.unitsAt o (ofIndex i) = t.units[i]?.toList := by
      intro i hi
      have lt : i < t.units.length := List.mem_range.mp hi
      rw [Store.unitsAt, unit (List.getElem?_eq_getElem lt), List.getElem?_eq_getElem lt]
      rfl
    rw [List.flatMap_congr each]
    exact flatMap_range_getElem? t.units
  case define =>
    intro k c d env shows hc hd
    obtain ⟨x, c', hx, hc'⟩ := shows.own? fits
    have shown := Object.own?_of_wrapped hk hx hc'
    rw [own, shown] at hc
    cases hc
    obtain ⟨v, e, rfl⟩ := Text.own?_cases hc'
    have judged : w.machine.store.define? o k d =
        if (Descriptor.data v false e false).admits d then some w.machine.store else none := by
      rw [Store.define?_eq, ho, Option.bind_some, Object.define?, hk, hx]
      simp only [hc']
      split
      · exact congrArg some (Store.modify_const ho)
      · rfl
    rw [Act.define_apply, judged]
    by_cases admitted : (Descriptor.data v false e false).admits d = true
    · rw [if_pos admitted]
      exact ⟨true, rfl, by simp [← Descriptor.admits_iff_repeats hd, admitted]⟩
    · rw [if_neg admitted]
      exact ⟨false, rfl, by simp [← Descriptor.admits_iff_repeats hd, admitted]⟩
  case others =>
    intro k env free α x hx
    exact hx.asOrdinary ho (Object.ordinaryAt_of_wrapped hk free)

/-- A string that becomes an object is shown by it for good, whatever is then done. -/
theorem wrapper_law {host : Host σ} (hh : host.Public R) {t : Text} (fits : t.length ≤ maxArrayLength)
    (config : Config) (budget : Budget) (w : World σ) :
    ∃ o w₁, (Act.toObject (.string t)).run host config budget w = .ok o w₁ ∧
      ∀ {α : Type} {x : Act σ α}, x.Public R → ∀ config₁ budget₁,
        (x.run host config₁ budget₁ w₁).world.Mirrors o t := by
  refine ⟨w.machine.store.fresh, _, rfl, ?_⟩
  intro α x hx config₁ budget₁
  have made : (w.add { kind := .string (some t), proto := some Intrinsic.stringPrototype.object }).machine.store.get?
      w.machine.store.fresh = some _ := (Store.get?_add _ _ _).trans (if_pos rfl)
  obtain ⟨obj, ho, hk⟩ := (run_steps hh hx config₁ budget₁ _).kind made rfl
  exact World.mirrors_of_kind ho hk fits

/-- A surrogate and a letter; the surrogate is to be replaced, and a property to be made at a key that is no index. -/
theorem a_wrapped_surrogate_stays :
    let t : Text := ⟨[0xD800, 97]⟩
    let w : World Unit := ⟨{}, ()⟩
    t.length ≤ maxArrayLength ∧ (¬ t.Shows "01" ∧ ¬ t.Shows (ofIndex 2)) ∧
      ∃ o w₁, (Act.toObject (.string t)).run idle {} ⟨64, 64⟩ w = .ok o w₁ ∧
      ((do
        let _ ← Act.define o "0" (.onlyValue (.string ⟨[97]⟩))
        Act.createData o "01" .null : Act Unit Bool).run idle {} ⟨64, 64⟩ w₁).world.Mirrors o t := by
  intro t w
  have hh : idle.Public .strict := fun _ _ _ => .ret _
  have fits : t.length ≤ maxArrayLength := by decide
  obtain ⟨o, w₁, made, mirrors⟩ := wrapper_law hh fits {} ⟨64, 64⟩ w
  refine ⟨fits, ⟨by unfold Text.Shows; decide, by unfold Text.Shows; decide⟩, o, w₁, made, mirrors ?_ {} ⟨64, 64⟩⟩
  exact .bind (.define o _ (.inr rfl)) fun _ => .createData o _ _

end EcmaObjects
