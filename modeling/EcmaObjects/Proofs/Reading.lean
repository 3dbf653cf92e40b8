/-
  EcmaObjects.Proofs.Reading — what a read of a property comes to, requests, and fresh iterator results.

  A read finds its property first. One that is no accessor is then read where it is, in
  every environment and with no change of the world (`get_of_found`); an accessor makes one
  call, of its getter, and the call is known before it is made (`Store.getterCall?`, `get_logs`).
  What an operation asks for, by calls and by reads, is a list of requests (`Request`); `Env.Shows`
  says that no other calls came of it.
  An iterator result is one new object with two plain properties (`iterResult_apply`), so it
  is read without any call, whatever its prototype has become (`World.FreshResult`).
-/

import EcmaObjects.Proofs.Refusal

namespace EcmaObjects

variable {σ α : Type}

/-! ## Data properties -/

namespace Store

variable {s : Store} {o p : ObjectId} {k : PropertyKey} {d : Descriptor}

theorem find_of_own (hd : s.own? o k = some d) (limit : Nat) : s.find k limit o = .found d := by
  unfold find
  simp only [hd]

theorem find_of_proto (hk : s.own? o k = none) (hp : s.protoOf o = some p) (limit : Nat) :
    s.find k (limit + 1) o = s.find k limit p := by
  conv =>
    lhs
    unfold find
  simp only [hk, hp]

/-- With no link left to follow a chain is too deep. -/
theorem find_zero_of_proto (hk : s.own? o k = none) (hp : s.protoOf o = some p) : s.find k 0 o = .tooDeep := by
  unfold find
  simp only [hk, hp]

end Store

namespace Act

theorem get_of_find {env : Env σ} {w : World σ} {o : ObjectId} {k : PropertyKey} {d : Descriptor}
    (h : w.machine.store.find k env.maxDepth o = .found d) (receiver : Value) :
    get o k receiver env w = valueOf d receiver env w := by
  simp only [get, bind_apply, store_apply, maxDepth_apply, h]

/-- What is found and is no accessor is read; nothing is called. -/
theorem get_of_found {env : Env σ} {w : World σ} {o : ObjectId} {k : PropertyKey} {d : Descriptor}
    (h : w.machine.store.find k env.maxDepth o = .found d) (ha : d.isAccessor = false) (receiver : Value) :
    get o k receiver env w = .ok (d.value.getD .undefined) w := by
  rw [get_of_find h]
  simp only [valueOf, ha, Bool.false_eq_true, if_false, pure_apply]

theorem get_of_absent {env : Env σ} {w : World σ} {o : ObjectId} {k : PropertyKey}
    (h : w.machine.store.find k env.maxDepth o = .absent) (receiver : Value) :
    get o k receiver env w = .ok .undefined w := by
  simp only [get, bind_apply, store_apply, maxDepth_apply, h, pure_apply]

theorem get_of_tooDeep {env : Env σ} {w : World σ} {o : ObjectId} {k : PropertyKey}
    (h : w.machine.store.find k env.maxDepth o = .tooDeep) (receiver : Value) :
    get o k receiver env w = .abrupt (.thrown (.object w.machine.store.fresh)) (w.withError .chainTooDeep) := by
  simp only [get, bind_apply, store_apply, maxDepth_apply, h, tooDeep, throwCause_apply]

theorem get_of_own {w : World σ} {o : ObjectId} {k : PropertyKey} {d : Descriptor}
    (hd : w.machine.store.own? o k = some d) (ha : d.isAccessor = false) (receiver : Value) (env : Env σ) :
    get o k receiver env w = .ok (d.value.getD .undefined) w :=
  get_of_found (Store.find_of_own hd _) ha receiver

end Act

/-! ## Accessors -/

/-- The call of a function, if that can be called. -/
def Store.callOf? (s : Store) (f this : Value) (args : List Value) : Option Call :=
  (Act.behavior? s f).map fun b => ⟨b, this, args⟩

/-- The call that a read makes: of the getter which it finds, if that can be called. -/
def Store.getterCall? (s : Store) (k : PropertyKey) (limit : Nat) (o : ObjectId) (receiver : Value) : Option Call :=
  match s.find k limit o with
  | .found d => if d.isAccessor then s.callOf? (d.getter.getD .undefined) receiver [] else none
  | .absent | .tooDeep => none

theorem Call.logs (call : Call) {env : Env σ} {log : σ → List Call} (hl : env.Logs log) (w : World σ) :
    log (call.result env w).world.host = log w.host ++ [call] := by
  rw [Call.result, Result.world_ofCall, hl]

namespace Act

variable {env : Env σ} {log : σ → List Call}

/-- What is called is called once, and what cannot be called is an error. -/
theorem call_apply (f this : Value) (args : List Value) (env : Env σ) (w : World σ) :
    call f this args env w = match w.machine.store.callOf? f this args with
      | some call => call.result env w
      | none => .abrupt (.thrown (.object w.machine.store.fresh)) (w.withError .notCallable) := by
  unfold Store.callOf?
  cases hb : behavior? w.machine.store f with
  | some b => exact call_of_some hb this args
  | none => exact call_of_none hb this args

theorem call_logs (hl : env.Logs log) (f this : Value) (args : List Value) (w : World σ) :
    log (call f this args env w).world.host = log w.host ++ (w.machine.store.callOf? f this args).toList := by
  rw [call_apply]
  cases w.machine.store.callOf? f this args with
  | some call => exact call.logs hl w
  | none => exact (List.append_nil _).symm

/-- A read makes the call of its getter and no other. -/
theorem get_logs (hl : env.Logs log) (o : ObjectId) (k : PropertyKey) (receiver : Value) (w : World σ) :
    log (get o k receiver env w).world.host =
      log w.host ++ (w.machine.store.getterCall? k env.maxDepth o receiver).toList := by
  simp only [get, bind_apply, store_apply, maxDepth_apply, Store.getterCall?]
  cases w.machine.store.find k env.maxDepth o with
  | absent => exact (List.append_nil _).symm
  | tooDeep => exact (List.append_nil _).symm
  | found d =>
    cases ha : d.isAccessor with
    | false =>
      simp only [valueOf, ha, Bool.false_eq_true, if_false]
      exact (List.append_nil _).symm
    | true =>
      simp only [valueOf, ha, if_true]
      cases d.getter.getD .undefined with
      | undefined => exact (List.append_nil _).symm
      | _ => exact call_logs hl _ receiver [] w

theorem call_eq_fault {f this : Value} {args : List Value} {w w' : World σ} {e : Fault}
    (h : call f this args env w = .fault e w') :
    ∃ c, w.machine.store.callOf? f this args = some c ∧ c.result env w = .fault e w' := by
  rw [call_apply] at h
  cases hc : w.machine.store.callOf? f this args with
  | none =>
    rw [hc] at h
    cases h
  | some c =>
    rw [hc] at h
    exact ⟨c, rfl, h⟩

/-- A read is broken off only if the call of its getter is. -/
theorem get_eq_fault {o : ObjectId} {k : PropertyKey} {receiver : Value} {w w' : World σ} {e : Fault}
    (h : get o k receiver env w = .fault e w') :
    ∃ c, w.machine.store.getterCall? k env.maxDepth o receiver = some c ∧ c.result env w = .fault e w' := by
  simp only [get, bind_apply, store_apply, maxDepth_apply] at h
  unfold Store.getterCall?
  cases hf : w.machine.store.find k env.maxDepth o with
  | absent | tooDeep =>
    rw [hf] at h
    cases h
  | found d =>
    simp only [hf, valueOf] at h
    cases ha : d.isAccessor with
    | false =>
      simp only [ha, Bool.false_eq_true, if_false] at h
      cases h
    | true =>
      simp only [ha, if_true] at h ⊢
      cases hg : d.getter.getD .undefined with
      | undefined =>
        rw [hg] at h
        cases h
      | _ =>
        rw [hg] at h
        exact call_eq_fault h

end Act

/-! ## Requests -/

/-- What an operation asks of an object: to be called, or one of its properties, which may
    take the call of a getter. -/
inductive Request where
  | call (call : Call)
  | read (o : ObjectId) (k : PropertyKey) (getter : Option Call)
  deriving DecidableEq, Repr

namespace Request

def isCall : Request → Bool
  | .call _ => true
  | .read .. => false

def reads (k : PropertyKey) : Request → Bool
  | .call _ => false
  | .read _ k' _ => k' == k

/-- The call that comes of a request. -/
def made? : Request → Option Call
  | .call c => some c
  | .read _ _ getter => getter

end Request

/-- The reading of a property of an object, itself the receiver. -/
def Store.reading (s : Store) (limit : Nat) (o : ObjectId) (k : PropertyKey) : Request :=
  .read o k (s.getterCall? k limit o (.object o))

/-- From one world to the other these requests were made and no others: a log of calls, if
    there is one, has grown by what came of them. -/
def Env.Shows (env : Env σ) (w w' : World σ) (asked : List Request) : Prop :=
  ∀ log : σ → List Call, env.Logs log → log w'.host = log w.host ++ asked.filterMap Request.made?

namespace Env.Shows

variable {env : Env σ} {w w₁ w₂ : World σ} {asked more : List Request}

theorem of_host (h : w₁.host = w.host) : env.Shows w w₁ [] := by
  intro log _
  rw [h]
  exact (List.append_nil _).symm

theorem trans (h : env.Shows w w₁ asked) (h' : env.Shows w₁ w₂ more) : env.Shows w w₂ (asked ++ more) := by
  intro log hl
  rw [h' log hl, h log hl, List.filterMap_append, List.append_assoc]

/-- An error is made without a request. -/
theorem raises (h : env.Shows w w₁ asked) {t : ErrorType} {c : Cause} {e : ObjectId} (raised : w₁.Raises t c e w₂) :
    env.Shows w w₂ asked := by
  have all := h.trans (.of_host raised.host)
  rwa [List.append_nil] at all

theorem call (c : Call) (env : Env σ) (w : World σ) : env.Shows w (c.result env w).world [.call c] :=
  fun _ hl => c.logs hl w

theorem read (o : ObjectId) (k : PropertyKey) (receiver : Value) (env : Env σ) (w : World σ) :
    env.Shows w (Act.get o k receiver env w).world
      [.read o k (w.machine.store.getterCall? k env.maxDepth o receiver)] := by
  intro log hl
  rw [Act.get_logs hl]
  cases w.machine.store.getterCall? k env.maxDepth o receiver <;> rfl

theorem of_call {c : Call} {u : Value} (h : c.result env w = .ok u w₁) : env.Shows w w₁ [.call c] := by
  have shows := call c env w
  rw [h] at shows
  exact shows

theorem of_get {o : ObjectId} {k : PropertyKey} {receiver v : Value} (h : Act.get o k receiver env w = .ok v w₁) :
    env.Shows w w₁ [.read o k (w.machine.store.getterCall? k env.maxDepth o receiver)] := by
  have shows := read o k receiver env w
  rw [h] at shows
  exact shows

end Env.Shows

/-! ## Iterator results -/

/-- An iterator result, as it is made. -/
def Object.ofResult (v : Value) (done : Bool) : Object :=
  let bare : Object := { proto := some Intrinsic.objectPrototype.object }
  (bare.insert "value" (.plain v)).insert "done" (.plain (.boolean done))

/-- A property stored on the newest object might as well have been there when it was made. -/
theorem Store.insert_add_fresh (s : Store) (obj : Object) (k : PropertyKey) (d : Descriptor) :
    (s.add obj).modify s.fresh (·.insert k d) = s.add (obj.insert k d) := by
  refine ext_get? fun p => ?_
  rw [get?_modify, get?_add, get?_add]
  split <;> rfl

/-- `o` is an object of `w'` that was not in `w`, an iterator result. What it says is read off
    it in every environment, so that no code runs. -/
structure World.FreshResult (w : World σ) (v : Value) (done : Bool) (o : ObjectId) (w' : World σ) : Prop where
  fresh : w.machine.store.get? o = none
  ownValue : w'.machine.store.own? o "value" = some (.plain v)
  ownDone : w'.machine.store.own? o "done" = some (.plain (.boolean done))
  readsDone : ∀ env, Act.resultDone o env w' = .ok done w'
  readsValue : ∀ env, Act.resultValue o env w' = .ok v w'

theorem World.freshResult_add (w : World σ) (v : Value) (done : Bool) :
    w.FreshResult v done w.machine.store.fresh (w.add (.ofResult v done)) := by
  have made : (w.add (.ofResult v done)).machine.store.get? w.machine.store.fresh =
      some { Object.ofResult v done with proto := w.machine.store.link? (Object.ofResult v done).proto } := by
    show (w.machine.store.add _).get? _ = _
    rw [Store.get?_add, if_pos rfl]
  have ownValue : (w.add (.ofResult v done)).machine.store.own? w.machine.store.fresh "value" = some (.plain v) := by
    rw [Store.own?, made]
    rfl
  have ownDone : (w.add (.ofResult v done)).machine.store.own? w.machine.store.fresh "done" =
      some (.plain (.boolean done)) := by
    rw [Store.own?, made]
    rfl
  refine ⟨w.machine.store.get?_fresh, ownValue, ownDone, fun env => ?_, fun env => Act.get_of_own ownValue rfl _ env⟩
  rw [Act.resultDone, Act.bind_apply, Act.get_of_own ownDone rfl]
  rfl

namespace Act

theorem iterResult_apply (v : Value) (done : Bool) (env : Env σ) (w : World σ) :
    iterResult v done env w = .ok w.machine.store.fresh (w.add (.ofResult v done)) := by
  let bare : Object := { proto := some Intrinsic.objectPrototype.object }
  have made : (w.machine.store.add bare).get? w.machine.store.fresh =
      some { bare with proto := w.machine.store.link? bare.proto } := by
    rw [Store.get?_add, if_pos rfl]
  have value : (w.machine.store.add bare).define? w.machine.store.fresh "value" (.plain v) =
      some (w.machine.store.add (bare.insert "value" (.plain v))) := by
    rw [Store.define?_new made rfl, Store.insert_add_fresh]
  have made' : (w.machine.store.add (bare.insert "value" (.plain v))).get? w.machine.store.fresh =
      some { bare.insert "value" (.plain v) with proto := w.machine.store.link? bare.proto } := by
    rw [Store.get?_add, if_pos rfl]
    rfl
  have flag : (w.machine.store.add (bare.insert "value" (.plain v))).define? w.machine.store.fresh "done"
      (.plain (.boolean done)) = some (w.machine.store.add (.ofResult v done)) := by
    rw [Store.define?_new made' rfl, Store.insert_add_fresh]
    rfl
  change (do
    let _ ← createData w.machine.store.fresh "value" v
    let _ ← createData w.machine.store.fresh "done" (.boolean done)
    return w.machine.store.fresh : Act σ ObjectId) env (w.add bare) = _
  simp only [bind_apply, createData, define_apply, World.add, value, flag, pure_apply]

theorem listNext_apply (this : Value) (env : Env σ) (w : World σ) :
    listNext this env w = match w.machine.store.nextItem? this with
      | none => .abrupt (.thrown (.object w.machine.store.fresh)) (w.withError .notListIterator)
      | some (item, s) =>
        let after : World σ := { w with machine := { w.machine with store := s } }
        .ok (.object s.fresh) (after.add (.ofResult (item.getD .undefined) item.isNone)) := by
  simp only [listNext, bind_apply, store_apply]
  cases w.machine.store.nextItem? this with
  | none => rfl
  | some r =>
    obtain ⟨item, s⟩ := r
    change (do return .object (← iterResult (item.getD .undefined) item.isNone) : Act σ Value) env
      { w with machine := { w.machine with store := s } } = _
    rw [bind_apply, iterResult_apply]
    rfl

end Act

end EcmaObjects
