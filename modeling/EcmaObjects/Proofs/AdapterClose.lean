/-
  EcmaObjects.Proofs.AdapterClose — closing an adapter is closing what it wraps.

  The close of an adapter calls its `return`, which calls that of the sync iterator and
  repacks the result; what comes out is awaited and merged with the reason for the close. Seen
  from below this is the call of `return` that the plain close makes (`callReturn_adapter`),
  followed by reads of its result and of `then`. `adapter_close_law`: where those reads have no
  effect of their own, the two closes end alike for every reason and every way in which the
  call may end, but for one object that the adapter's may make besides (`Result.EndsLike`); and both
  call the sync iterator's `return` once, with no arguments, or not at all.
-/

import EcmaObjects.Proofs.Adapter
import EcmaObjects.Proofs.Await

namespace EcmaObjects

variable {σ α : Type}

/-- The first result is the second, but for one object that was made besides, at most. -/
inductive Result.EndsLike : Result σ α → Result σ α → Prop
  | same (result : Result σ α) : EndsLike result result
  | more (a : α) (w : World σ) (obj : Object) : EndsLike (.ok a (w.add obj)) (.ok a w)

theorem Result.EndsLike.host {x y : Result σ α} (h : x.EndsLike y) : x.world.host = y.world.host := by
  cases h <;> rfl

namespace Store

/-- `q` is an adapter over `r`, and a look-up of its `return` within the limit finds that of adapters. -/
structure ClosesBy (s : Store) (limit : Nat) (q r : IteratorRecord) : Prop where
  wraps : s.iteration? q.iterator = some (.adapter r)
  method : ∃ d, s.find "return" limit q.iterator = .found d ∧ d.isAccessor = false ∧
    Act.behavior? s (d.value.getD .undefined) = some (.builtin .adapterReturn)

theorem closesBy_ofAdapter {s : Store}
    (hr : s.OwnMethod Intrinsic.asyncFromSyncIteratorPrototype.object "return" .adapterReturn) (limit : Nat) (f : Value)
    (r : IteratorRecord) : (s.add (.ofAdapter r)).ClosesBy (limit + 1) ⟨s.fresh, f, false⟩ r where
  wraps := by
    rw [iteration?, Store.get?_ofAdapter]
    rfl
  method := by
    obtain ⟨d, hd, plain, behavior⟩ := hr.add (.ofAdapter r)
    exact ⟨d, (s.find_ofAdapter r "return" limit).trans (find_of_own hd limit), plain, behavior⟩

end Store

namespace Act

/-! ## The `return` of an adapter -/

theorem callReturn_ne_abrupt (r : IteratorRecord) (env : Env σ) (w w' : World σ) (c : Abrupt) :
    callReturn r env w ≠ .abrupt c w' := by
  intro h
  simp only [callReturn, bind_apply, attempt_apply] at h
  cases hm : getMethod (.object r.iterator) "return" env w with
  | abrupt a w₁ | fault e w₁ => cases hm ▸ h
  | ok found w₁ =>
    rw [hm] at h
    cases found with
    | none => cases h
    | some f =>
      simp only [bind_apply] at h
      cases hr : callFunction f (.object r.iterator) [] env w₁ with
      | ok ended w₂ | fault e w₂ => cases hr ▸ h
      | abrupt a w₂ => exact absurd hr (callFunction_ne_abrupt _ _ _ _ _ _ _)

theorem Orderly.adapterReturn (this : Value) (args : List Value) : Orderly (adapterReturn this args : Act σ Value) := by
  have record : Orderly (wrappedRecord this : Act σ IteratorRecord) := by
    refine Orderly.store.bind fun s => ?_
    split
    · exact ret _
    · exact throwCause _
  refine record.bind fun sync => (getMethod _ _).bind fun found => ?_
  split
  · exact forward _ _ _ _
  · exact (iterResult _ _).bind fun _ => ret _

theorem adapterReturn_apply {w : World σ} {o : ObjectId} {r : IteratorRecord}
    (h : w.machine.store.iteration? o = some (.adapter r)) (env : Env σ) :
    adapterReturn (.object o) [] env w = match callReturn r env w with
      | .ok none w₁ => .ok (.object w₁.machine.store.fresh) (w₁.add (.ofResult .undefined true))
      | .ok (some (.normal (.object result))) w₁ => repack result env w₁
      | .ok (some (.normal _)) w₁ => throwCause .returnNotObject env w₁
      | .ok (some (.abrupt c)) w₁ => .abrupt c w₁
      | .abrupt c w₁ => .abrupt c w₁
      | .fault e w₁ => .fault e w₁ := by
  simp only [adapterReturn, bind_apply, wrappedRecord_apply h, callReturn, attempt_apply]
  cases getMethod (.object r.iterator) "return" env w with
  | abrupt c w₁ | fault e w₁ => rfl
  | ok found w₁ =>
    cases found with
    | none =>
      simp only [bind_apply, iterResult_apply]
      rfl
    | some f =>
      simp only [forward, call, bind_apply, List.take_nil]
      cases callFunction f (.object r.iterator) [] env w₁ with
      | abrupt c w₂ | fault e w₂ => rfl
      | ok ended w₂ =>
        cases ended with
        | abrupt c => rfl
        | normal v => cases v <;> rfl

/-- What the close of an adapter does first, at a caller whose calls run in `env`. -/
theorem callReturn_adapter {env : Env σ} {w : World σ} {q r : IteratorRecord}
    (h : w.machine.store.ClosesBy env.maxDepth q r) (host : Host σ) :
    callReturn q (env.over host) w = match adapterReturn (.object q.iterator) [] env w with
      | .ok v w₁ => .ok (some (.normal v)) w₁
      | .abrupt c w₁ => .ok (some (.abrupt c)) w₁
      | .fault e w₁ => .fault e w₁ := by
  obtain ⟨d, found, plain, behavior⟩ := h.method
  have here : w.machine.store.find "return" (env.over host).maxDepth q.iterator = .found d := found
  have read : getV (.object q.iterator) "return" (env.over host) w = .ok (d.value.getD .undefined) w :=
    get_of_found here plain _
  have run : (env.over host).perform (.builtin .adapterReturn) (.object q.iterator) [] w =
      adapterReturn (.object q.iterator) [] env w := rfl
  rw [callReturn_called read (isCallable_iff.mpr ⟨_, behavior⟩), callFunction_apply behavior, run]
  cases hr : adapterReturn (.object q.iterator) [] env w with
  | ok v w₁ | fault e w₁ => rfl
  | abrupt c w₁ =>
    have propagates := (Orderly.adapterReturn _ _ env w c w₁ hr).propagates
    cases c with
    | returned v => exact propagates.elim
    | thrown | broken | continued => rfl

/-! ## The wait -/

theorem closeAsyncWith_apply (await : Value → Act σ Completion) (r : IteratorRecord) (reason : Completion) (env : Env σ)
    (w : World σ) :
    closeAsyncWith await r reason env w = match callReturn r env w with
      | .ok none w₁ => .ok reason w₁
      | .ok (some (.normal v)) w₁ => (do mergeClose reason (← await v)) env w₁
      | .ok (some (.abrupt a)) w₁ => mergeClose reason (.abrupt a) env w₁
      | .abrupt c w₁ => .abrupt c w₁
      | .fault e w₁ => .fault e w₁ := by
  simp only [closeAsyncWith, closeAsync_eq, bind_apply]
  cases callReturn r env w with
  | abrupt c w₁ | fault e w₁ => rfl
  | ok ended w₁ =>
    cases ended with
    | none => rfl
    | some inner =>
      cases inner with
      | normal v => rfl
      | abrupt a =>
        simp only [afterReturn, bind_apply]
        cases mergeClose reason (.abrupt a) env w₁ <;> rfl

/-! ## The two closes -/

/-- The reads that only the close of the adapter makes are of no effect: of `then`, from a fresh result,
    and of `done` and `value`, from the object that the sync iterator's `return` gave. -/
structure ReadsPlainly (host : Host σ) (env : Env σ) (r : IteratorRecord) (w : World σ) : Prop where
  awaited {ended : Option Completion} {w₁ : World σ} : callReturn r env w = .ok ended w₁ → ∀ v done,
    getV (.object w₁.machine.store.fresh) "then" (env.over host) (w₁.add (.ofResult v done)) =
      .ok .undefined (w₁.add (.ofResult v done))
  done {result : ObjectId} {w₁ : World σ} : callReturn r env w = .ok (some (.normal (.object result))) w₁ →
    ∃ d, get result "done" (.object result) env w₁ = .ok d w₁
  value {result : ObjectId} {w₁ : World σ} : callReturn r env w = .ok (some (.normal (.object result))) w₁ →
    ∃ v, get result "value" (.object result) env w₁ = .ok v w₁

theorem ReadsPlainly.repack {host : Host σ} {env : Env σ} {r : IteratorRecord} {w w₁ : World σ} {result : ObjectId}
    (h : ReadsPlainly host env r w) (hr : callReturn r env w = .ok (some (.normal (.object result))) w₁) :
    ∃ v done, repack result env w₁ = .ok (.object w₁.machine.store.fresh) (w₁.add (.ofResult v done)) := by
  obtain ⟨d, hd⟩ := h.done hr
  obtain ⟨v, hv⟩ := h.value hr
  exact ⟨v, d.toBoolean, repack_apply hd hv⟩

theorem mergeClose_of_result {host : Host σ} {env : Env σ} {r : IteratorRecord} {w w₁ : World σ}
    (h : ReadsPlainly host env r w) {ended : Option Completion} (hr : callReturn r env w = .ok ended w₁)
    (reason : Completion) (v : Value) (done : Bool) :
    (do mergeClose reason (← await (.object w₁.machine.store.fresh))) (env.over host) (w₁.add (.ofResult v done)) =
      .ok reason (w₁.add (.ofResult v done)) := by
  rw [bind_apply, await_of_not_thenable (h.awaited hr v done) rfl]
  cases reason with
  | normal u => rfl
  | abrupt a => rfl

theorem close_of_object {env : Env σ} {r : IteratorRecord} {w w₁ : World σ} {result : ObjectId} (reason : Completion)
    (hr : callReturn r env w = .ok (some (.normal (.object result))) w₁) : close r reason env w = .ok reason w₁ := by
  simp only [close_eq, bind_apply, hr]
  cases reason <;> rfl

/-- How the close of an adapter `q` over `r` compares with that of `r`. -/
structure AdapterCloseLaw (host : Host σ) (env : Env σ) (q r : IteratorRecord) (reason : Completion) (w : World σ) :
    Prop where
  agrees : (closeAsyncWith await q reason (env.over host) w).EndsLike (close r reason env w)
  /-- Either calls the `return` of the sync iterator once, if it finds one to call, and nothing else. -/
  once {log : σ → List Call} {f : Value} {w₁ : World σ} : env.Logs log →
    getV (.object r.iterator) "return" env w = .ok f w₁ →
    let calls := log w₁.host ++ (w₁.machine.store.callOf? f (.object r.iterator) []).toList
    log (close r reason env w).world.host = calls ∧
      log (closeAsyncWith await q reason (env.over host) w).world.host = calls

theorem adapter_close_law {env : Env σ} {w : World σ} {q r : IteratorRecord}
    (ha : w.machine.store.ClosesBy env.maxDepth q r) {host : Host σ} (hp : ReadsPlainly host env r w)
    (reason : Completion) : AdapterCloseLaw host env q r reason w := by
  have agrees : (closeAsyncWith await q reason (env.over host) w).EndsLike (close r reason env w) := by
    rw [closeAsyncWith_apply, callReturn_adapter ha, adapterReturn_apply ha.wraps]
    cases hr : callReturn r env w with
    | abrupt c w₁ => exact absurd hr (callReturn_ne_abrupt r env w w₁ c)
    | fault e w₁ =>
      simp only [close_eq, bind_apply, hr]
      exact .same _
    | ok ended w₁ =>
      cases ended with
      | none =>
        simp only [mergeClose_of_result hp hr, close_eq, bind_apply, hr]
        exact .more reason w₁ _
      | some inner =>
        cases inner with
        | abrupt a =>
          have merged : mergeClose reason (.abrupt a) (env.over host) w₁ = mergeClose reason (.abrupt a) env w₁ := by
            cases reason <;> rfl
          simp only [close_eq, bind_apply, hr, merged]
          exact .same _
        | normal v =>
          cases v with
          | object result =>
            obtain ⟨v, done, repacked⟩ := hp.repack hr
            simp only [repacked, mergeClose_of_result hp hr, close_of_object reason hr]
            exact .more reason w₁ _
          | _ =>
            simp only [close_eq, bind_apply, hr]
            -- Behind an adapter the error is made for an abrupt reason too, which then prevails.
            cases reason with
            | normal u => exact .same _
            | abrupt a => exact .more (Completion.abrupt a) w₁ _
  refine ⟨agrees, fun {log f w₁} hl hf => ?_⟩
  intro calls
  have plain : log (close r reason env w).world.host = calls := by
    rw [(close_law r reason env w).once hl hf]
    cases hb : behavior? w₁.machine.store f <;> simp [calls, Store.callOf?, hb]
  exact ⟨plain, by rw [agrees.host, plain]⟩

/-- The iterator whose `return` gives nothing ends its close alike behind an adapter, and its `return`
    is called once. -/
theorem an_adapter_closes_what_it_wraps :
    let env := (Env.ofHost idle ⟨8⟩ ⟨64, 64⟩).logged
    let host : Host (Unit × List Call) := fun _ _ _ => return .undefined
    let w := (closableWorld []).add (.ofAdapter closableRecord)
    let q : IteratorRecord := ⟨closable.store.fresh, .undefined, false⟩
    w.machine.store.ClosesBy env.maxDepth q closableRecord ∧ ReadsPlainly host env closableRecord w ∧
      (closeAsyncWith await q (.normal .null) (env.over host) w).EndsLike (close closableRecord (.normal .null) env w) ∧
      (closeAsyncWith await q (.normal .null) (env.over host) w).world.host.2 =
        [⟨.host 0, .object closableRecord.iterator, []⟩] := by
  intro env host w q
  have closes : w.machine.store.ClosesBy 8 q closableRecord :=
    Store.closesBy_ofAdapter ⟨_, rfl, rfl, rfl⟩ 7 _ _
  have found : getV (.object closableRecord.iterator) "return" env w = .ok (.object Realm.store.fresh) w := rfl
  have called : callReturn closableRecord env w = .ok (some (.normal .undefined)) ⟨w.machine, (), _⟩ := rfl
  have plain : ReadsPlainly host env closableRecord w := by
    constructor
    · intro ended w₁ hr v done
      rw [called] at hr
      cases hr
      rfl
    · intro result w₁ hr
      rw [called] at hr
      cases hr
    · intro result w₁ hr
      rw [called] at hr
      cases hr
  have law := adapter_close_law closes plain (.normal .null)
  exact ⟨closes, plain, law.agrees, (law.once (Env.logs_logged _) found).2⟩

end Act

end EcmaObjects
