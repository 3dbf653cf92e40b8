/-
  EcmaObjects.Proofs.Adapter — the adapter of async iteration does what the iterator under it does.

  A method of an adapter runs one call below its caller (`Env.over`). It calls a method of
  the sync iterator at most once, reads `done` and then `value` off what that gave, and puts both
  into a fresh result; `Forwards` lists every way in which this may end, with the calls of
  foreign code on the way.
  - `adapter_law`: where the built-in methods of adapters are in place (`Store.AdapterMethods`), an
    adapter can be had over any record; from then on a call of its `next` is such a forwarding
    of the same argument, or of none; and over a list iterator the adapter gives item after item
    and then the end, as the list iterator itself does (`stepValues`).
  - `a_zero_bigInt_is_repacked_as_true`: the fresh result is done where what was read of `done`
    counts as true, and so for a BigInt zero as well, which is falsy.
-/

import EcmaObjects.Proofs.Acquisition
import EcmaObjects.Proofs.Falsy
import EcmaObjects.Proofs.ListIterator
import EcmaObjects.Proofs.Propagation

namespace EcmaObjects

variable {R : Rules} {σ α β : Type}

/-- The environment of a caller whose calls run in `env`. -/
def Env.over (env : Env σ) (host : Host σ) : Env σ where
  maxDepth := env.maxDepth
  rounds := env.rounds
  perform b this args w := b.run host this args env w

/-- One more call may be nested in an evaluation with one more level. -/
theorem Env.ofHost_succ (host : Host σ) (config : Config) (depth rounds : Nat) :
    Env.ofHost host config ⟨depth + 1, rounds⟩ = (Env.ofHost host config ⟨depth, rounds⟩).over host := rfl

/-! ## Forwarding -/

namespace Act

/-- How the making of an adapter's result from the sync iterator's ends, with the calls on the
    way. Both reads are made once and in this order, and the first failure is the end. -/
inductive Repacks (env : Env σ) (result : ObjectId) (w : World σ) : List Call → Result σ Value → Prop
  | doneFails {out : Result σ Value} : (get result "done" (.object result) env w).Fails out →
      Repacks env result w (w.machine.store.getterCall? "done" env.maxDepth result (.object result)).toList out
  | valueFails {d : Value} {w₁ : World σ} {out : Result σ Value} :
      get result "done" (.object result) env w = .ok d w₁ →
      (get result "value" (.object result) env w₁).Fails out →
      Repacks env result w ((w.machine.store.getterCall? "done" env.maxDepth result (.object result)).toList ++
        (w₁.machine.store.getterCall? "value" env.maxDepth result (.object result)).toList) out
  | repacked {d v : Value} {done : Bool} {w₁ w₂ w' : World σ} {o : ObjectId} :
      get result "done" (.object result) env w = .ok d w₁ → get result "value" (.object result) env w₁ = .ok v w₂ →
      (done = true ↔ d.CountsAsTrue) → w₂.FreshResult v done o w' →
      Repacks env result w ((w.machine.store.getterCall? "done" env.maxDepth result (.object result)).toList ++
        (w₁.machine.store.getterCall? "value" env.maxDepth result (.object result)).toList) (.ok (.object o) w')

/-- How a forwarded call of `f` ends, with the calls on the way: of `f`, once, and then of getters. -/
inductive Forwards (env : Env σ) (f this : Value) (args : List Value) (notObject : Cause) (w : World σ) :
    List Call → Result σ Value → Prop
  | notCallable {e : ObjectId} {w' : World σ} : w.machine.store.callOf? f this args = none →
      w.Raises .typeError .notCallable e w' → Forwards env f this args notObject w [] (.abrupt (.thrown (.object e)) w')
  | callFails {call : Call} {out : Result σ Value} : w.machine.store.callOf? f this args = some call →
      (call.result env w).Fails out → Forwards env f this args notObject w [call] out
  | notObject {call : Call} {u : Value} {e : ObjectId} {w₁ w' : World σ} :
      w.machine.store.callOf? f this args = some call → call.result env w = .ok u w₁ → u.isObject = false →
      w₁.Raises .typeError notObject e w' →
      Forwards env f this args notObject w [call] (.abrupt (.thrown (.object e)) w')
  | called {call : Call} {result : ObjectId} {w₁ : World σ} {reads : List Call} {out : Result σ Value} :
      w.machine.store.callOf? f this args = some call → call.result env w = .ok (.object result) w₁ →
      Repacks env result w₁ reads out → Forwards env f this args notObject w (call :: reads) out

theorem Forwards.object {env : Env σ} {f this : Value} {args : List Value} {notObject : Cause} {w w' : World σ}
    {calls : List Call} {v : Value} (h : Forwards env f this args notObject w calls (.ok v w')) :
    ∃ o, v = .object o := by
  cases h with
  | callFails _ h => cases h
  | called _ _ h =>
    cases h with
    | doneFails h => cases h
    | valueFails _ h => cases h
    | repacked => exact ⟨_, rfl⟩

theorem repack_apply {env : Env σ} {w w₁ w₂ : World σ} {result : ObjectId} {d v : Value}
    (hd : get result "done" (.object result) env w = .ok d w₁)
    (hv : get result "value" (.object result) env w₁ = .ok v w₂) :
    repack result env w = .ok (.object w₂.machine.store.fresh) (w₂.add (.ofResult v d.toBoolean)) := by
  simp only [repack, resultDone, resultValue, bind_apply, hd, hv, pure_apply, iterResult_apply]

theorem repack_repacks (result : ObjectId) (env : Env σ) (w : World σ) :
    ∃ calls, Repacks env result w calls (repack result env w) ∧
      ∀ {log : σ → List Call}, env.Logs log → log (repack result env w).world.host = log w.host ++ calls := by
  have doneLogs {log : σ → List Call} (hl : env.Logs log) := get_logs hl result "done" (.object result) w
  simp only [repack, resultDone, resultValue, bind_apply]
  cases hd : get result "done" (.object result) env w with
  | abrupt c w₁ => exact ⟨_, .doneFails (.abrupt hd), fun hl => by rw [← doneLogs hl, hd]⟩
  | fault e w₁ => exact ⟨_, .doneFails (.fault hd), fun hl => by rw [← doneLogs hl, hd]⟩
  | ok d w₁ =>
    have valueLogs {log : σ → List Call} (hl : env.Logs log) :
        log (get result "value" (.object result) env w₁).world.host = log w.host ++
          ((w.machine.store.getterCall? "done" env.maxDepth result (.object result)).toList ++
            (w₁.machine.store.getterCall? "value" env.maxDepth result (.object result)).toList) := by
      have before := doneLogs hl
      rw [hd] at before
      rw [get_logs hl, ← List.append_assoc, ← before]
      rfl
    simp only [pure_apply]
    cases hv : get result "value" (.object result) env w₁ with
    | abrupt c w₂ => exact ⟨_, .valueFails hd (.abrupt hv), fun hl => by rw [← valueLogs hl, hv]⟩
    | fault e w₂ => exact ⟨_, .valueFails hd (.fault hv), fun hl => by rw [← valueLogs hl, hv]⟩
    | ok v w₂ =>
      simp only [iterResult_apply]
      exact ⟨_, .repacked hd hv d.toBoolean_iff (w₂.freshResult_add v d.toBoolean), fun hl => by
        rw [← valueLogs hl, hv]
        rfl⟩

theorem forward_forwards (sync : IteratorRecord) (f : Value) (args : List Value) (notObject : Cause)
    (type : notObject.errorType = .typeError) (env : Env σ) (w : World σ) :
    ∃ calls, Forwards env f (.object sync.iterator) (args.take 1) notObject w calls
        (forward sync f args notObject env w) ∧
      ∀ {log : σ → List Call}, env.Logs log →
        log (forward sync f args notObject env w).world.host = log w.host ++ calls := by
  simp only [forward, bind_apply, call_apply]
  cases hf : w.machine.store.callOf? f (.object sync.iterator) (args.take 1) with
  | none => exact ⟨[], .notCallable hf (w.raises_withError .notCallable), fun _ => (List.append_nil _).symm⟩
  | some call =>
    have callLogs {log : σ → List Call} (hl : env.Logs log) := call.logs hl w
    simp only
    cases hr : call.result env w with
    | abrupt c w₁ => exact ⟨[call], .callFails hf (.abrupt hr), fun hl => by rw [← callLogs hl, hr]⟩
    | fault e w₁ => exact ⟨[call], .callFails hf (.fault hr), fun hl => by rw [← callLogs hl, hr]⟩
    | ok u w₁ =>
      cases u with
      | object result =>
        obtain ⟨reads, hc, readLogs⟩ := repack_repacks result env w₁
        refine ⟨call :: reads, .called hf hr hc, fun {log} hl => ?_⟩
        have before := callLogs hl
        rw [hr] at before
        rw [readLogs hl, List.append_cons, ← before]
        rfl
      | _ =>
        refine ⟨[call], .notObject hf hr rfl (type ▸ w₁.raises_withError notObject), fun {log} hl => ?_⟩
        rw [← callLogs hl, hr]
        rfl

/-! ## The methods of an adapter -/

theorem wrappedRecord_apply {w : World σ} {o : ObjectId} {r : IteratorRecord}
    (h : w.machine.store.iteration? o = some (.adapter r)) (env : Env σ) : wrappedRecord (.object o) env w = .ok r w := by
  have read : ((Value.object o).object?.bind w.machine.store.get?).bind (·.iteration) = some (.adapter r) := h
  simp only [wrappedRecord, bind_apply, store_apply, read, pure_apply]

theorem adapterNext_apply {w : World σ} {o : ObjectId} {r : IteratorRecord}
    (h : w.machine.store.iteration? o = some (.adapter r)) (args : List Value) (env : Env σ) :
    adapterNext (.object o) args env w = forward r r.next args .resultNotObject env w := by
  have same : args.head?.toList = args.take 1 := by cases args <;> rfl
  simp only [adapterNext, bind_apply, wrappedRecord_apply h, next, forward, same]
  cases call r.next (.object r.iterator) (args.take 1) env w with
  | abrupt c w₁ | fault e w₁ => rfl
  | ok u w₁ => cases u <;> rfl

namespace Orderly

theorem iterResult (v : Value) (done : Bool) : Orderly (iterResult v done : Act σ ObjectId) :=
  of_total fun env w => ⟨_, _, iterResult_apply v done env w⟩

theorem repack (result : ObjectId) : Orderly (repack result : Act σ Value) :=
  (resultDone result).bind fun _ => (resultValue result).bind fun _ => (iterResult _ _).bind fun _ => ret _

theorem forward (sync : IteratorRecord) (f : Value) (args : List Value) (notObject : Cause) :
    Orderly (forward sync f args notObject : Act σ Value) := by
  refine (call _ _ _).bind fun result => ?_
  split
  · exact repack _
  · exact throwCause _

theorem ofCall {x : Act σ Value} (h : Orderly x) (env : Env σ) (w : World σ) : (x env w).ofCall = x env w := by
  cases hx : x env w with
  | ok v w₁ | fault e w₁ => rfl
  | abrupt c w₁ =>
    have propagates := (h env w c w₁ hx).propagates
    cases c with
    | returned v => exact propagates.elim
    | thrown | broken | continued => rfl

end Orderly
end Act

/-! ## Adapters in a store -/

def Object.ofAdapter (r : IteratorRecord) : Object :=
  { proto := some Intrinsic.asyncFromSyncIteratorPrototype.object, iteration := some (.adapter r) }

namespace Store

/-- `q` is an adapter over `r`, with the `next` of adapters. -/
structure Adapts (s : Store) (q r : IteratorRecord) : Prop where
  wraps : s.iteration? q.iterator = some (.adapter r)
  next : Act.behavior? s q.next = some (.builtin .adapterNext)

/-- The object has a method of the library as its own property. -/
def OwnMethod (s : Store) (o : ObjectId) (k : PropertyKey) (b : Builtin) : Prop :=
  ∃ d, s.own? o k = some d ∧ d.isAccessor = false ∧ Act.behavior? s (d.value.getD .undefined) = some (.builtin b)

/-- The methods that make an adapter async iterable are where they were at first. -/
structure AdapterMethods (s : Store) : Prop where
  next : s.OwnMethod Intrinsic.asyncFromSyncIteratorPrototype.object "next" .adapterNext
  inherits : s.protoOf Intrinsic.asyncFromSyncIteratorPrototype.object = some Intrinsic.asyncIteratorPrototype.object
  bare : s.own? Intrinsic.asyncFromSyncIteratorPrototype.object WellKnown.asyncIterator = none
  async : s.OwnMethod Intrinsic.asyncIteratorPrototype.object WellKnown.asyncIterator .self

variable {s : Store}

theorem own?_add_of_get? {o : ObjectId} {obj : Object} (h : s.get? o = some obj) (new : Object) (k : PropertyKey) :
    (s.add new).own? o k = s.own? o k := by
  rw [own?, own?, get?_add_of_some h, h]

theorem OwnMethod.add {o : ObjectId} {k : PropertyKey} {b : Builtin} (h : s.OwnMethod o k b) (new : Object) :
    (s.add new).OwnMethod o k b := by
  obtain ⟨d, hd, ha, hb⟩ := h
  exact ⟨d, own?_add_of_some hd new, ha, behavior?_add_of_some hb new⟩

theorem Adapts.add {q r : IteratorRecord} (h : s.Adapts q r) (new : Object) : (s.add new).Adapts q r :=
  ⟨iteration?_add_of_some h.wraps new, behavior?_add_of_some h.next new⟩

theorem AdapterMethods.add (h : s.AdapterMethods) (new : Object) : (s.add new).AdapterMethods where
  next := h.next.add new
  inherits := by
    obtain ⟨obj, hg, -⟩ := Option.bind_eq_some_iff.mp h.inherits
    rw [protoOf, get?_add_of_some hg, ← hg]
    exact h.inherits
  bare := by
    obtain ⟨obj, hg, -⟩ := Option.bind_eq_some_iff.mp h.inherits
    rw [own?_add_of_get? hg]
    exact h.bare
  async := h.async.add new

theorem get?_ofAdapter (s : Store) (r : IteratorRecord) : (s.add (.ofAdapter r)).get? s.fresh = some (.ofAdapter r) :=
  get?_add_linked rfl s

theorem own?_ofAdapter (s : Store) (r : IteratorRecord) (k : PropertyKey) :
    (s.add (.ofAdapter r)).own? s.fresh k = none := by
  rw [own?, get?_ofAdapter]
  rfl

theorem protoOf_ofAdapter (s : Store) (r : IteratorRecord) :
    (s.add (.ofAdapter r)).protoOf s.fresh = some Intrinsic.asyncFromSyncIteratorPrototype.object := by
  rw [protoOf, get?_ofAdapter]
  rfl

/-- From an adapter its async method is two links away, and its `next` one. -/
theorem find_ofAdapter (s : Store) (r : IteratorRecord) (k : PropertyKey) (n : Nat) :
    (s.add (.ofAdapter r)).find k (n + 1) s.fresh =
      (s.add (.ofAdapter r)).find k n Intrinsic.asyncFromSyncIteratorPrototype.object :=
  find_of_proto (s.own?_ofAdapter r k) (s.protoOf_ofAdapter r) n

theorem AdapterMethods.find_asyncIterator (h : s.AdapterMethods) (r : IteratorRecord) (n : Nat) :
    (s.add (.ofAdapter r)).find WellKnown.asyncIterator (n + 2) s.fresh =
      (s.add (.ofAdapter r)).find WellKnown.asyncIterator n Intrinsic.asyncIteratorPrototype.object := by
  have methods := h.add (.ofAdapter r)
  rw [find_ofAdapter, find_of_proto methods.bare methods.inherits]

end Store

theorem Machine.Run.adapts {m m' : Machine} (h : Machine.Run R m m') {q r : IteratorRecord} (ha : m.store.Adapts q r) :
    m'.store.Adapts q r :=
  ⟨h.adapter ha.wraps, h.behavior? ha.next⟩

namespace Act

/-- A call of an adapter's `next` forwards to its sync iterator, one call further in. -/
theorem call_adapter {w : World σ} {q r : IteratorRecord} (h : w.machine.store.Adapts q r) (args : List Value)
    (env : Env σ) (host : Host σ) :
    call q.next (.object q.iterator) args (env.over host) w = forward r r.next args .resultNotObject env w := by
  have run : (env.over host).perform (.builtin .adapterNext) (.object q.iterator) args w =
      forward r r.next args .resultNotObject env w := adapterNext_apply h.wraps args env
  rw [call_of_some h.next, run, (Orderly.forward r r.next args _).ofCall]

theorem getMethod_of_found {env : Env σ} {w : World σ} {o : ObjectId} {k : PropertyKey} {d : Descriptor} {b : Behavior}
    (h : w.machine.store.find k env.maxDepth o = .found d) (ha : d.isAccessor = false)
    (hb : behavior? w.machine.store (d.value.getD .undefined) = some b) :
    getMethod (.object o) k env w = .ok (some (d.value.getD .undefined)) w := by
  have callable : w.machine.store.isCallable (d.value.getD .undefined) = true := isCallable_iff.mpr ⟨b, hb⟩
  have read : getV (.object o) k env w = .ok (d.value.getD .undefined) w := get_of_found h ha _
  simp only [getMethod_apply, read, isNullish_of_isCallable callable, callable, Bool.false_eq_true, if_false, if_true]

theorem getMethod_of_absent {env : Env σ} {w : World σ} {o : ObjectId} {k : PropertyKey}
    (h : w.machine.store.find k env.maxDepth o = .absent) : getMethod (.object o) k env w = .ok none w := by
  have read : getV (.object o) k env w = .ok .undefined w := get_of_absent h _
  rw [getMethod_apply, read]
  rfl

theorem adapt_apply {env : Env σ} {w : World σ} (hs : w.machine.store.AdapterMethods) (hd : 2 ≤ env.maxDepth)
    (host : Host σ) (r : IteratorRecord) :
    ∃ f, adapt r (env.over host) w = .ok ⟨w.machine.store.fresh, f, false⟩ (w.add (.ofAdapter r)) ∧
      (w.add (.ofAdapter r)).machine.store.Adapts ⟨w.machine.store.fresh, f, false⟩ r := by
  let o := w.machine.store.fresh
  let w₁ := w.add (.ofAdapter r)
  obtain ⟨n, hn⟩ : ∃ n, (env.over host).maxDepth = n + 2 := ⟨env.maxDepth - 2, (Nat.sub_add_cancel hd).symm⟩
  have methods : w₁.machine.store.AdapterMethods := hs.add _
  obtain ⟨async, ownAsync, plainAsync, asyncSelf⟩ := methods.async
  obtain ⟨next, ownNext, plainNext, nextAdapter⟩ := methods.next
  have foundAsync : w₁.machine.store.find WellKnown.asyncIterator (env.over host).maxDepth o = .found async := by
    rw [hn]
    exact (hs.find_asyncIterator r n).trans (Store.find_of_own ownAsync _)
  have foundNext : w₁.machine.store.find "next" (env.over host).maxDepth o = .found next := by
    rw [hn]
    exact (Store.find_ofAdapter _ r _ (n + 1)).trans (Store.find_of_own ownNext _)
  have self : call (async.value.getD .undefined) (.object o) [] (env.over host) w₁ = .ok (.object o) w₁ := by
    rw [call_of_some asyncSelf]
    rfl
  have acquired : acquireWith (.object o) (async.value.getD .undefined) (env.over host) w₁ =
      .ok ⟨o, next.value.getD .undefined, false⟩ w₁ := by
    simp only [acquireWith, bind_apply, self, get_of_found foundNext plainNext, pure_apply]
  refine ⟨next.value.getD .undefined, ?_, ?_, nextAdapter⟩
  · show acquireAsync env.rounds (.object o) (env.over host) w₁ = _
    rw [acquireAsync_apply, getMethod_of_found foundAsync plainAsync asyncSelf]
    exact acquired
  · show w₁.machine.store.iteration? o = _
    have made : w₁.machine.store.get? o = some (.ofAdapter r) := Store.get?_ofAdapter _ r
    rw [Store.iteration?, made]
    rfl

/-- An adapter's async method is two links away, so under a lower limit no record gets an adapter. -/
theorem adapt_ne_ok {env : Env σ} {w : World σ} (hs : w.machine.store.AdapterMethods) (hd : env.maxDepth < 2)
    (host : Host σ) (r q : IteratorRecord) (w' : World σ) : adapt r (env.over host) w ≠ .ok q w' := by
  let o := w.machine.store.fresh
  let w₁ := w.add (.ofAdapter r)
  have methods : w₁.machine.store.AdapterMethods := hs.add _
  -- Neither the adapter nor its prototype has the method, and there is room for one link at most.
  have deep : w₁.machine.store.find WellKnown.asyncIterator (env.over host).maxDepth o = .tooDeep := by
    obtain hn | hn : (env.over host).maxDepth = 0 ∨ (env.over host).maxDepth = 1 := Nat.le_one_iff_eq_zero_or_eq_one.mp
      (Nat.le_of_lt_succ hd)
    · rw [hn]
      exact Store.find_zero_of_proto (Store.own?_ofAdapter _ r _) (Store.protoOf_ofAdapter _ r)
    · rw [hn]
      exact (Store.find_ofAdapter _ r _ 0).trans (Store.find_zero_of_proto methods.bare methods.inherits)
  have fails : getMethod (.object o) WellKnown.asyncIterator (env.over host) w₁ =
      .abrupt (.thrown (.object w₁.machine.store.fresh)) (w₁.withError .chainTooDeep) := by
    have read : getV (.object o) WellKnown.asyncIterator (env.over host) w₁ = _ := get_of_tooDeep deep (.object o)
    rw [getMethod_apply, read]
  intro h
  have run : adapt r (env.over host) w = acquireAsync env.rounds (.object o) (env.over host) w₁ := rfl
  rw [run, acquireAsync_apply, fails] at h
  cases h

end Act

/-! ## Steps in a row -/

def Result.map (f : α → β) : Result σ α → Result σ β
  | .ok a w => .ok (f a) w
  | .abrupt c w => .abrupt c w
  | .fault e w => .fault e w

namespace Act

/-- `n` steps one after another, each with the record that the last one left, and how each ended. -/
def stepValues : Nat → IteratorRecord → Act σ (List (Except Abrupt (Option Value)))
  | 0, _ => return []
  | n + 1, r => do
    let (outcome, r) ← stepValue r
    return outcome :: (← stepValues n r)

/-- An invariant that gives each step its item gives them all. -/
theorem stepValues_of_steps {env : Env σ} {items : List Value} {P : Nat → World σ → Prop} {r : IteratorRecord}
    (step : ∀ k w, P k w → ∃ w', advanceValue r env w = .ok items[k]? w' ∧ P (k + 1) w') (n : Nat) {k : Nat} {w : World σ}
    (h : P k w) : ∃ w', stepValues n r env w = .ok ((List.range' k n).map fun i => .ok items[i]?) w' := by
  induction n generalizing k w r with
  | zero => exact ⟨w, rfl⟩
  | succ n ih =>
    obtain ⟨w₁, advanced, h₁⟩ := step k w h
    -- What a step leaves differs from the record at most in the mark of the end, which no step looks at.
    have left : ∃ done, r.after (.ok items[k]?) = { r with done } := by
      cases items[k]? with
      | none => exact ⟨true, rfl⟩
      | some v => exact ⟨r.done, rfl⟩
    obtain ⟨done, left⟩ := left
    obtain ⟨w₂, rest⟩ := ih (r := { r with done }) step h₁
    refine ⟨w₂, ?_⟩
    simp only [stepValues, stepValue_eq_tracked, tracked, bind_apply, attempt_apply, advanced, pure_apply, left, rest]
    rfl

theorem advanceValue_of_result {r : IteratorRecord} {env : Env σ} {w w₀ w' : World σ} {o : ObjectId} {item : Option Value}
    (called : call r.next (.object r.iterator) [] env w = .ok (.object o) w')
    (result : w₀.FreshResult (item.getD .undefined) item.isNone o w') : advanceValue r env w = .ok item w' := by
  have next : next r none env w = .ok o w' := by
    rw [Act.next, bind_apply, Option.toList, called]
    rfl
  simp only [advanceValue, advance, bind_apply, next, result.readsDone]
  cases item with
  | none => rfl
  | some v =>
    simp only [Option.isNone_some, Bool.false_eq_true, if_false, pure_apply, bind_apply, result.readsValue]
    rfl

theorem listNext_run (this : Value) (env : Env σ) (w : World σ) :
    Machine.Run R w.machine (listNext this env w).world.machine := by
  let still : Env σ := ⟨0, 0, fun _ _ _ w => .fault .exhausted w⟩
  have run := steps_listNext (R := R) this still (fun _ _ _ _ => .refl) w
  rw [listNext_apply] at run ⊢
  exact run

section
variable {items : List Value} {w : World σ} {q r : IteratorRecord} {k : Nat}

theorem call_list (env : Env σ) (host : Host σ) (hl : w.machine.store.ListAt r.iterator items k)
    (hn : w.machine.store.IsListNext r.next) :
    ∃ o w', call r.next (.object r.iterator) [] (env.over host) w = .ok (.object o) w' ∧
      w.FreshResult (items[k]?.getD .undefined) items[k]?.isNone o w' ∧
      w'.machine.store.ListAt r.iterator items (k + 1) ∧ Machine.Run .checked w.machine w'.machine := by
  obtain ⟨⟨o, w', hr, fresh⟩, moved⟩ := listNext_gives hl env
  have run := listNext_run (R := .checked) (.object r.iterator) env w
  have hr : listNext (.object r.iterator) env w = .ok (.object o) w' := hr
  rw [hr] at moved run
  refine ⟨o, w', ?_, fresh, moved, run⟩
  rw [call_of_some hn]
  show (listNext (.object r.iterator) env w).ofCall = _
  rw [hr]
  rfl

theorem stepValues_list (env : Env σ) (host : Host σ) (hl : w.machine.store.ListAt r.iterator items 0)
    (hn : w.machine.store.IsListNext r.next) (n : Nat) :
    ∃ w', stepValues n r (env.over host) w = .ok ((List.range n).map fun k => .ok items[k]?) w' := by
  let P (k : Nat) (w : World σ) : Prop := w.machine.store.ListAt r.iterator items k ∧ w.machine.store.IsListNext r.next
  rw [List.range_eq_range']
  refine stepValues_of_steps (P := P) (fun k w h => ?_) n ⟨hl, hn⟩
  obtain ⟨o, w', called, result, moved, run⟩ := call_list env host h.1 h.2
  exact ⟨w', advanceValue_of_result called result, moved, run.behavior? h.2⟩

theorem stepValues_adapter (env : Env σ) (host : Host σ) (hl : w.machine.store.ListAt r.iterator items 0)
    (hn : w.machine.store.IsListNext r.next) (hq : w.machine.store.Adapts q r) (n : Nat) :
    ∃ w', stepValues n q ((env.over host).over host) w = .ok ((List.range n).map fun k => .ok items[k]?) w' := by
  let P (k : Nat) (w : World σ) : Prop :=
    w.machine.store.ListAt r.iterator items k ∧ w.machine.store.IsListNext r.next ∧ w.machine.store.Adapts q r
  rw [List.range_eq_range']
  refine stepValues_of_steps (P := P) (fun k w h => ?_) n ⟨hl, hn, hq⟩
  obtain ⟨hl, hn, hq⟩ := h
  obtain ⟨o, w₁, called, result, moved, run⟩ := call_list env host hl hn
  let new : Object := .ofResult (items[k]?.getD .undefined) items[k]?.isNone
  have forwarded : call q.next (.object q.iterator) [] ((env.over host).over host) w =
      .ok (.object w₁.machine.store.fresh) (w₁.add new) := by
    rw [call_adapter hq]
    simp only [forward, bind_apply, List.take_nil, called, repack, result.readsDone, result.readsValue, iterResult_apply]
    rfl
  exact ⟨_, advanceValue_of_result forwarded (w₁.freshResult_add _ _), moved.add _,
    Store.behavior?_add_of_some (run.behavior? hn) _, (run.adapts hq).add _⟩

end

/-! ## The law of adapters -/

/-- How an adapter `q` over `r` steps, in a world where its caller's calls run in `env`. -/
structure StepsBy (host : Host σ) (env : Env σ) (q r : IteratorRecord) (w : World σ) : Prop where
  /-- A call of its `next` calls the iterator's `next`, on the iterator and with the same argument
      if there is one, then reads the result, and calls nothing else. -/
  forwards (arg : Option Value) : ∃ calls,
    Forwards env r.next (.object r.iterator) arg.toList .resultNotObject w calls
      (call q.next (.object q.iterator) arg.toList (env.over host) w) ∧
    ∀ {log : σ → List Call}, env.Logs log →
      log (call q.next (.object q.iterator) arg.toList (env.over host) w).world.host = log w.host ++ calls
  next (arg : Option Value) : (next q arg (env.over host) w).map Value.object =
    call q.next (.object q.iterator) arg.toList (env.over host) w

theorem stepsBy_of_adapts {w : World σ} {q r : IteratorRecord} (h : w.machine.store.Adapts q r) (host : Host σ)
    (env : Env σ) : StepsBy host env q r w := by
  have forwards (arg : Option Value) := forward_forwards r r.next arg.toList .resultNotObject rfl env w
  have one (arg : Option Value) : arg.toList.take 1 = arg.toList := by cases arg <;> rfl
  constructor
  · intro arg
    rw [call_adapter h]
    have hf := forwards arg
    rw [one] at hf
    exact hf
  · intro arg
    obtain ⟨calls, hf, -⟩ := forwards arg
    rw [Act.next, bind_apply, call_adapter h]
    cases hr : forward r r.next arg.toList .resultNotObject env w with
    | abrupt c w₁ | fault e w₁ => rfl
    | ok v w₁ =>
      rw [hr] at hf
      obtain ⟨o, rfl⟩ := hf.object
      rfl

/-- What adapters do that are made in the world `w`. -/
structure AdapterLaw (R : Rules) (host : Host σ) (env : Env σ) (w : World σ) : Prop where
  made_iff (r : IteratorRecord) : (∃ q w₁, adapt r (env.over host) w = .ok q w₁) ↔ 2 ≤ env.maxDepth
  /-- It steps by its record from then on, whatever else goes on. -/
  steps {r q : IteratorRecord} {w₁ : World σ} : adapt r (env.over host) w = .ok q w₁ →
    ∀ w' : World σ, Machine.Run R w₁.machine w'.machine → StepsBy host env q r w'
  /-- Over a list, any number of steps of the iterator and of an adapter come to the same: the
      items in order, and the end where there are no more. -/
  list {items : List Value} {r q : IteratorRecord} {w₁ w₂ : World σ} :
    listIterator items ((env.over host).over host) w = .ok r w₁ → adapt r ((env.over host).over host) w₁ = .ok q w₂ →
    ∀ n, ∃ w₃ w₄,
      stepValues n r ((env.over host).over host) w₁ = .ok ((List.range n).map fun k => .ok items[k]?) w₃ ∧
      stepValues n q ((env.over host).over host) w₂ = .ok ((List.range n).map fun k => .ok items[k]?) w₄

/-- Where the methods of adapters are in place, an adapter simulates its iterator step by step. -/
theorem adapter_law {w : World σ} (hs : w.machine.store.AdapterMethods) (host : Host σ) (env : Env σ) :
    AdapterLaw R host env w := by
  have deep {env : Env σ} {w w₁ : World σ} (hs : w.machine.store.AdapterMethods) {r q : IteratorRecord}
      (h : adapt r (env.over host) w = .ok q w₁) : 2 ≤ env.maxDepth :=
    Nat.le_of_not_lt fun shallow => adapt_ne_ok hs shallow host r q w₁ h
  constructor
  · intro r
    constructor
    · rintro ⟨q, w₁, h⟩
      exact deep hs h
    · intro hd
      obtain ⟨f, h, -⟩ := adapt_apply hs hd host r
      exact ⟨_, _, h⟩
  · intro r q w₁ h w' run
    obtain ⟨f, h', adapts⟩ := adapt_apply hs (deep hs h) host r
    cases h.symm.trans h'
    exact stepsBy_of_adapts (run.adapts adapts) host env
  · intro items r q w₁ w₂ hr hq n
    let w₀ : World σ := (w.add (.ofList items)).add (.ofFunction ⟨"next", 0, .builtin .listNext⟩)
    have methods : w₀.machine.store.AdapterMethods := (hs.add _).add _
    obtain ⟨r', hr', first, next⟩ := listIterator_apply items ((env.over host).over host) w
    cases hr.symm.trans hr'
    obtain ⟨f, hq', adapts⟩ := adapt_apply methods (deep methods hq) host r
    cases hq.symm.trans hq'
    have later : (w₀.add (.ofAdapter r)).machine.store.IsListNext r.next := Store.behavior?_add_of_some next _
    obtain ⟨w₃, direct⟩ := stepValues_list (env.over host) host first next n
    obtain ⟨w₄, behind⟩ := stepValues_adapter env host (first.add (.ofAdapter r)) later adapts n
    exact ⟨w₃, w₄, direct, behind⟩

/-- An adapter over a list of one item, two steps of either. -/
theorem an_adapter_over_one_item :
    let env : Env Unit := .ofHost idle ⟨8⟩ ⟨64, 64⟩
    let w : World Unit := ⟨{}, ()⟩
    w.machine.store.AdapterMethods ∧ ∃ r q w₁ w₂ w₃ w₄, listIterator [.null] env w = .ok r w₁ ∧
      adapt r env w₁ = .ok q w₂ ∧ stepValues 2 r env w₁ = .ok [.ok (some .null), .ok none] w₃ ∧
      stepValues 2 q env w₂ = .ok [.ok (some .null), .ok none] w₄ := by
  intro env w
  let inner : Env Unit := .ofHost idle ⟨8⟩ ⟨62, 64⟩
  have nested : env = (inner.over idle).over idle := by rw [← Env.ofHost_succ, ← Env.ofHost_succ]
  rw [nested]
  have methods : w.machine.store.AdapterMethods :=
    ⟨⟨_, rfl, rfl, rfl⟩, rfl, rfl, ⟨_, rfl, rfl, rfl⟩⟩
  have law : AdapterLaw .checked idle inner w := adapter_law methods idle _
  obtain ⟨r, w₁, hr⟩ : ∃ r w₁, listIterator [.null] ((inner.over idle).over idle) w = .ok r w₁ := ⟨_, _, rfl⟩
  have methods₁ : w₁.machine.store.AdapterMethods := by
    cases hr
    exact (methods.add _).add _
  have law₁ : AdapterLaw .checked idle (inner.over idle) w₁ := adapter_law methods₁ idle _
  obtain ⟨q, w₂, hq⟩ := (law₁.made_iff r).mpr (by decide)
  obtain ⟨w₃, w₄, direct, behind⟩ := law.list hr hq 2
  exact ⟨methods, r, q, w₁, w₂, w₃, w₄, hr, hq, direct, behind⟩

/-- A BigInt zero for `done`, which is falsy, is true in the result of an adapter. -/
theorem a_zero_bigInt_is_repacked_as_true :
    let session : Act Unit (Value × Value) := do
      let result ← create {}
      let _ ← createData result "done" (.bigInt 0)
      let r : IteratorRecord := ⟨result, ← newFunction ⟨"next", 0, .builtin .self⟩, false⟩
      let adapter ← newAdapter r
      let given ← next ⟨adapter, ← get adapter "next" (.object adapter), false⟩ none
      return (← get (← next r none) "done" (.object result), ← get given "done" (.object given))
    ∃ w, session.run idle {} ⟨64, 64⟩ ⟨{}, ()⟩ = .ok (.bigInt 0, .boolean true) w ∧ (Value.bigInt 0).Falsy :=
  ⟨_, rfl, .bigIntZero⟩

end Act

end EcmaObjects
