/-
  EcmaObjects.Proofs.AdapterThrow — throwing into an adapter.

  The `throw` of an adapter reads that of the sync iterator. A function is called in its
  stead, and what it gives is passed on (`Act.PassesOn`). Undefined or null breaks the protocol
  of iterators, so the sync iterator is closed and the call fails whatever the close comes to
  (`Act.ClosesAndFails`).
  - `adapter_throw_law`: each case with its requests and its end. Where `throw` is missing,
    `return` is read once, called at most once and without arguments, and the end is that of the
    read or the call if it was abrupt, a TypeError otherwise: no such call ever gives a value.
    Where it can be called, `return` is not read.
-/

import EcmaObjects.Proofs.Adapter
import EcmaObjects.Proofs.Primitive

namespace EcmaObjects

variable {σ α : Type}

/-! ## Requests -/

theorem Store.callOf?_of_not_isCallable {s : Store} {f this : Value} {args : List Value} (h : s.isCallable f = false) :
    s.callOf? f this args = none := by
  cases hc : s.callOf? f this args with
  | none => rfl
  | some call =>
    rw [isCallable_of_callOf? hc] at h
    cases h

namespace Act

theorem Replies.calls_eq {env : Env σ} {o : ObjectId} {k : PropertyKey} {args : List Value} {w w₁ : World σ}
    {asked : List Request} {out : Result σ Value} (h : Replies env o k args w asked out) {f : Value}
    (hf : get o k (.object o) env w = .ok f w₁) :
    asked.filter Request.isCall = (w₁.machine.store.callOf? f (.object o) args).toList.map .call := by
  cases h with
  | lookupFails failed =>
    rw [hf] at failed
    exact absurd failed Result.not_fails_ok
  | called hm hc =>
    cases hm.symm.trans hf
    rw [hc]
    rfl

theorem Replies.ofCall {env : Env σ} {o : ObjectId} {k : PropertyKey} {args : List Value} {w : World σ}
    {asked : List Request} {result out : Result σ Value} (h : Replies env o k args w asked result)
    (hf : result.Fails out) : out.ofCall = out := by
  cases h with
  | lookupFails failed =>
    have read := failed.trans hf
    rw [← read.same]
    exact (Orderly.get o k (.object o)).ofCall env w
  | called _ _ =>
    cases hf with
    | fault => rfl
    | @abrupt c _ failed =>
      have no_return := (Result.ofCall_eq_abrupt failed).2
      cases c with
      | returned v => exact absurd rfl (no_return v)
      | thrown | broken | continued => rfl

/-! ## For want of a `throw` -/

/-- How the sync iterator is closed when it has no `throw`: whatever its `return` does, the end is a failure. -/
inductive ClosesAndFails (env : Env σ) (r : IteratorRecord) (w : World σ) : List Request → Result σ Value → Prop
  | fails {asked : List Request} {result out : Result σ Value} : Replies env r.iterator "return" [] w asked result →
      result.Fails out → ClosesAndFails env r w asked out
  | answers {asked : List Request} {u : Value} {w₁ w' : World σ} {e : ObjectId} :
      Replies env r.iterator "return" [] w asked (.ok u w₁) →
      w₁.Raises .typeError (if u.isObject then .noThrowMethod else .returnNotObject) e w' →
      ClosesAndFails env r w asked (.abrupt (.thrown (.object e)) w')
  | noReturn {f : Value} {w₁ w' : World σ} {e : ObjectId} : NoMethod env r.iterator "return" w f w₁ →
      w₁.Raises .typeError (if f.isNullish then .noThrowMethod else .methodNotCallable "return") e w' →
      ClosesAndFails env r w [w.machine.store.reading env.maxDepth r.iterator "return"] (.abrupt (.thrown (.object e)) w')

def closeAndFail (r : IteratorRecord) : Act σ Value := do
  match ← close r (.normal .undefined) with
  | .abrupt a => raise a
  | .normal _ => throwCause .noThrowMethod

theorem callFunction_of_callOf? {f this : Value} {args : List Value} {call : Call} {env : Env σ} {w : World σ}
    (h : w.machine.store.callOf? f this args = some call) :
    callFunction f this args env w = match call.result env w with
      | .ok v w₁ => .ok (.normal v) w₁
      | .abrupt c w₁ => .ok (.abrupt c) w₁
      | .fault e w₁ => .fault e w₁ := by
  obtain ⟨b, hb, rfl⟩ := Option.map_eq_some_iff.mp h
  rw [callFunction_apply hb, Call.result]
  cases env.perform b this args w with
  | ok v w₁ | fault e w₁ => simp [Result.ofCall]
  | abrupt c w₁ => cases c <;> simp [Result.ofCall, Completion.ofCall]

section
variable {env : Env σ} {r : IteratorRecord} {w w₁ : World σ} {asked : List Request} {out : Result σ Value}

theorem closeAndFail_of_callReturn {inner : Option Completion} (h : callReturn r env w = .ok inner w₁) :
    closeAndFail r env w = match inner with
      | none => .abrupt (.thrown (.object w₁.machine.store.fresh)) (w₁.withError .noThrowMethod)
      | some (.abrupt a) => .abrupt a w₁
      | some (.normal u) =>
        let cause : Cause := if u.isObject then .noThrowMethod else .returnNotObject
        .abrupt (.thrown (.object w₁.machine.store.fresh)) (w₁.withError cause) := by
  simp only [closeAndFail, close_eq, bind_apply, h]
  cases inner with
  | none => rfl
  | some inner =>
    cases inner with
    | abrupt a => rfl
    | normal u => cases hu : u.isObject <;> simp [mergeClose, hu, completion_apply]

theorem closesAndFails (r : IteratorRecord) (env : Env σ) (w : World σ) :
    ∃ asked, ClosesAndFails env r w asked (closeAndFail r env w) := by
  cases hg : get r.iterator "return" (.object r.iterator) env w with
  | abrupt a w₁ =>
    rw [closeAndFail_of_callReturn (callReturn_fails hg)]
    exact ⟨_, .fails (.lookupFails (.abrupt hg)) (.abrupt rfl)⟩
  | fault e w₁ =>
    have broken : closeAndFail r env w = .fault e w₁ := by
      simp only [closeAndFail, close_eq, bind_apply, callReturn_faults hg]
    rw [broken]
    exact ⟨_, .fails (.lookupFails (.fault hg)) (.fault rfl)⟩
  | ok f w₁ =>
    cases hc : w₁.machine.store.callOf? f (.object r.iterator) [] with
    | none =>
      have notCallable := Store.not_isCallable_of_callOf? hc
      cases hf : f.isNullish with
      | true =>
        rw [closeAndFail_of_callReturn (callReturn_absent hg hf)]
        refine ⟨_, .noReturn ⟨hg, notCallable⟩ ?_⟩
        rw [hf]
        exact w₁.raises_withError .noThrowMethod
      | false =>
        rw [closeAndFail_of_callReturn (callReturn_not_callable hg hf notCallable)]
        refine ⟨_, .noReturn ⟨hg, notCallable⟩ ?_⟩
        rw [hf]
        exact w₁.raises_withError (.methodNotCallable "return")
    | some call =>
      have called := callReturn_called hg (Store.isCallable_of_callOf? hc)
      rw [callFunction_of_callOf? hc] at called
      have replies : Replies env r.iterator "return" [] w _ (call.result env w₁) := .called hg hc
      cases hr : call.result env w₁ with
      | ok u w₂ =>
        rw [hr] at called replies
        rw [closeAndFail_of_callReturn called]
        refine ⟨_, .answers replies ?_⟩
        cases u.isObject with
        | true => exact w₂.raises_withError .noThrowMethod
        | false => exact w₂.raises_withError .returnNotObject
      | abrupt a w₂ =>
        rw [hr] at called replies
        rw [closeAndFail_of_callReturn called]
        exact ⟨_, .fails replies (.abrupt rfl)⟩
      | fault e w₂ =>
        rw [hr] at called replies
        have broken : closeAndFail r env w = .fault e w₂ := by
          simp only [closeAndFail, close_eq, bind_apply, called]
        rw [broken]
        exact ⟨_, .fails replies (.fault rfl)⟩

namespace ClosesAndFails

theorem shows (h : ClosesAndFails env r w asked out) : env.Shows w out.world asked := by
  cases h with
  | fails replies failed =>
    rw [failed.world]
    exact replies.shows
  | answers replies raised => exact replies.shows.raises raised
  | noReturn missing raised => exact missing.shows.raises raised

/-- The end is that of the lookup or the call, if one of them was abrupt, and a TypeError otherwise. -/
theorem cut (h : ClosesAndFails env r w asked out) : Cut env w asked out := by
  cases h with
  | fails replies failed => exact replies.cut failed
  | answers replies raised => exact .error replies.shows raised
  | noReturn missing raised => exact .error missing.shows raised

theorem not_ok (h : ClosesAndFails env r w asked out) (v : Value) (w' : World σ) : out ≠ .ok v w' := by
  cases h with
  | fails _ failed =>
    rintro rfl
    cases failed
  | answers | noReturn => exact nofun

/-- No end of it is a return, so a caller sees it as it is. -/
theorem ofCall (h : ClosesAndFails env r w asked out) : out.ofCall = out := by
  cases h with
  | fails replies failed => exact replies.ofCall failed
  | answers | noReturn => rfl

theorem reads_return (h : ClosesAndFails env r w asked out) : asked.countP (Request.reads "return") = 1 := by
  cases h with
  | fails replies _ => exact replies.reads "return"
  | answers replies _ => exact replies.reads "return"
  | noReturn missing _ => exact missing.reads "return"

theorem calls (h : ClosesAndFails env r w asked out) {f : Value}
    (hf : get r.iterator "return" (.object r.iterator) env w = .ok f w₁) :
    asked.filter Request.isCall = (w₁.machine.store.callOf? f (.object r.iterator) []).toList.map .call := by
  cases h with
  | fails replies _ => exact replies.calls_eq hf
  | answers replies _ => exact replies.calls_eq hf
  | noReturn missing _ =>
    cases missing.read.symm.trans hf
    rw [Store.callOf?_of_not_isCallable missing.notCallable]
    rfl

end ClosesAndFails
end

/-! ## A `throw` that can be called -/

/-- How the result of the sync iterator is made into a fresh one, with the two reads. -/
inductive Repackages (env : Env σ) (result : ObjectId) (w : World σ) : List Request → Result σ Value → Prop
  | doneFails {out : Result σ Value} : (get result "done" (.object result) env w).Fails out →
      Repackages env result w [w.machine.store.reading env.maxDepth result "done"] out
  | valueFails {d : Value} {w₁ : World σ} {out : Result σ Value} :
      get result "done" (.object result) env w = .ok d w₁ →
      (get result "value" (.object result) env w₁).Fails out →
      Repackages env result w [w.machine.store.reading env.maxDepth result "done",
        w₁.machine.store.reading env.maxDepth result "value"] out
  | repacked {d v : Value} {done : Bool} {w₁ w₂ w' : World σ} {o : ObjectId} :
      get result "done" (.object result) env w = .ok d w₁ → get result "value" (.object result) env w₁ = .ok v w₂ →
      (done = true ↔ d.CountsAsTrue) → w₂.FreshResult v done o w' →
      Repackages env result w [w.machine.store.reading env.maxDepth result "done",
        w₁.machine.store.reading env.maxDepth result "value"] (.ok (.object o) w')

/-- How what the call gives is passed on: a failure as it is, an object as a fresh result, and
    anything else as a TypeError. -/
inductive PassesOn (env : Env σ) (call : Call) (w : World σ) : List Request → Result σ Value → Prop
  | fails {out : Result σ Value} : (call.result env w).Fails out → PassesOn env call w [.call call] out
  | notObject {u : Value} {w₁ w' : World σ} {e : ObjectId} : call.result env w = .ok u w₁ → u.isObject = false →
      w₁.Raises .typeError .throwNotObject e w' → PassesOn env call w [.call call] (.abrupt (.thrown (.object e)) w')
  | object {result : ObjectId} {w₁ : World σ} {asked : List Request} {out : Result σ Value} :
      call.result env w = .ok (.object result) w₁ → Repackages env result w₁ asked out →
      PassesOn env call w (.call call :: asked) out

section
variable {env : Env σ} {call : Call} {result : ObjectId} {w : World σ} {asked : List Request} {out : Result σ Value}

theorem Repacks.repackages {calls : List Call} (h : Repacks env result w calls out) :
    ∃ asked, Repackages env result w asked out ∧ asked.filterMap Request.made? = calls := by
  have one (q : Request) : [q].filterMap Request.made? = q.made?.toList := by
    cases hq : q.made? <;> simp [hq]
  have two (q q' : Request) : [q, q'].filterMap Request.made? = q.made?.toList ++ q'.made?.toList := by
    cases hq : q.made? <;> cases hq' : q'.made? <;> simp [hq, hq']
  cases h with
  | doneFails failed => exact ⟨_, .doneFails failed, one _⟩
  | valueFails done failed => exact ⟨_, .valueFails done failed, two _ _⟩
  | repacked done value flag fresh => exact ⟨_, .repacked done value flag fresh, two _ _⟩

theorem Forwards.passesOn {f this : Value} {args : List Value} {calls : List Call}
    (h : Forwards env f this args .throwNotObject w calls out) (hc : w.machine.store.callOf? f this args = some call) :
    ∃ asked, PassesOn env call w asked out ∧ asked.filterMap Request.made? = calls := by
  cases h with
  | notCallable none _ => cases none.symm.trans hc
  | callFails called failed =>
    cases called.symm.trans hc
    exact ⟨_, .fails failed, rfl⟩
  | notObject called gave notObject raised =>
    cases called.symm.trans hc
    exact ⟨_, .notObject gave notObject raised, rfl⟩
  | called called gave repacks =>
    cases called.symm.trans hc
    obtain ⟨asked, repackages, made⟩ := repacks.repackages
    exact ⟨_, .object gave repackages, by rw [← made]; rfl⟩

theorem Repackages.requests (h : Repackages env result w asked out) :
    asked.filter Request.isCall = [] ∧ asked.countP (Request.reads "return") = 0 := by
  cases h <;> exact ⟨rfl, rfl⟩

theorem PassesOn.requests (h : PassesOn env call w asked out) :
    asked.filter Request.isCall = [.call call] ∧ asked.countP (Request.reads "return") = 0 := by
  cases h with
  | fails | notObject => exact ⟨rfl, rfl⟩
  | object _ repackages =>
    obtain ⟨calls, reads⟩ := repackages.requests
    refine ⟨?_, ?_⟩
    · rw [List.filter_cons_of_pos rfl, calls]
    · rw [List.countP_cons_of_neg (by simp [Request.reads]), reads]

end

/-! ## The law of the method -/

/-- What a call of the `throw` of an adapter over `r` comes to, by what reading that of the iterator gives. -/
structure AdapterThrowLaw (env : Env σ) (r : IteratorRecord) (args : List Value) (w : World σ) (out : Result σ Value) :
    Prop where
  lookup_fails {end' : Result σ Value} : (get r.iterator "throw" (.object r.iterator) env w).Fails end' → out = end'
  not_callable {f : Value} {w₁ : World σ} : NoMethod env r.iterator "throw" w f w₁ → f.isNullish = false →
    ∃ e w', w₁.Raises .typeError (.methodNotCallable "throw") e w' ∧ out = .abrupt (.thrown (.object e)) w'
  /-- Without a `throw` the iterator is closed: `return` is read once, and called once if it can
      be. A failure of the read or of the call passes, and all else is a TypeError. -/
  closes {f : Value} {w₁ : World σ} : get r.iterator "throw" (.object r.iterator) env w = .ok f w₁ →
    f.isNullish = true → ∃ asked, ClosesAndFails env r w₁ asked out ∧ Cut env w₁ asked out ∧
      env.Shows w₁ out.world asked ∧ asked.countP (Request.reads "return") = 1 ∧
      ∀ {g : Value} {w₂ : World σ}, get r.iterator "return" (.object r.iterator) env w₁ = .ok g w₂ →
        asked.filter Request.isCall = (w₂.machine.store.callOf? g (.object r.iterator) []).toList.map .call
  never_normal {f : Value} {w₁ : World σ} : get r.iterator "throw" (.object r.iterator) env w = .ok f w₁ →
    f.isNullish = true → ∀ v w', out ≠ .ok v w'
  /-- A function is called once, with the first argument at most, and `return` is not read. -/
  passes_on {f : Value} {w₁ : World σ} {call : Call} :
    get r.iterator "throw" (.object r.iterator) env w = .ok f w₁ →
    w₁.machine.store.callOf? f (.object r.iterator) (args.take 1) = some call →
    ∃ asked, PassesOn env call w₁ asked out ∧ env.Shows w₁ out.world asked ∧
      asked.filter Request.isCall = [.call call] ∧ asked.countP (Request.reads "return") = 0

section
variable {env : Env σ} {w : World σ} {o : ObjectId} {r : IteratorRecord}

theorem adapterThrow_apply (h : w.machine.store.iteration? o = some (.adapter r)) (args : List Value) :
    adapterThrow (.object o) args env w = match getMethod (.object r.iterator) "throw" env w with
      | .ok (some method) w₁ => forward r method args .throwNotObject env w₁
      | .ok none w₁ => closeAndFail r env w₁
      | .abrupt c w₁ => .abrupt c w₁
      | .fault e w₁ => .fault e w₁ := by
  simp only [adapterThrow, bind_apply, wrappedRecord_apply h]
  cases getMethod (.object r.iterator) "throw" env w with
  | abrupt c w₁ | fault e w₁ => rfl
  | ok found w₁ => cases found <;> rfl

theorem adapterThrowLaw (h : w.machine.store.iteration? o = some (.adapter r)) (args : List Value) :
    AdapterThrowLaw env r args w (adapterThrow (.object o) args env w) := by
  have found {f : Value} {w₁ : World σ} (hf : get r.iterator "throw" (.object r.iterator) env w = .ok f w₁) :
      getMethod (.object r.iterator) "throw" env w = if f.isNullish then .ok none w₁
        else if w₁.machine.store.isCallable f then .ok (some f) w₁
        else .abrupt (.thrown (.object w₁.machine.store.fresh)) (w₁.withError (.methodNotCallable "throw")) := by
    have read : getV (.object r.iterator) "throw" env w = .ok f w₁ := hf
    rw [getMethod_apply, read]
  have closed {f : Value} {w₁ : World σ} (hf : get r.iterator "throw" (.object r.iterator) env w = .ok f w₁)
      (nullish : f.isNullish = true) : adapterThrow (.object o) args env w = closeAndFail r env w₁ := by
    rw [adapterThrow_apply h, found hf, if_pos nullish]
  refine ⟨?lookup_fails, ?not_callable, ?closes, ?never_normal, ?passes_on⟩
  case lookup_fails =>
    intro end' failed
    have method : (getMethod (.object r.iterator) "throw" env w).Fails end' := by
      have read : getV (.object r.iterator) "throw" env w = get r.iterator "throw" (.object r.iterator) env w := rfl
      rw [getMethod_apply, read]
      cases failed with
      | abrupt hf =>
        rw [hf]
        exact .abrupt rfl
      | fault hf =>
        rw [hf]
        exact .fault rfl
    rw [adapterThrow_apply h]
    cases method with
    | abrupt hm | fault hm => rw [hm]
  case not_callable =>
    intro f w₁ missing present
    refine ⟨_, _, w₁.raises_withError (.methodNotCallable "throw"), ?_⟩
    rw [adapterThrow_apply h, found missing.read]
    simp only [present, missing.notCallable, Bool.false_eq_true, if_false]
  case closes =>
    intro f w₁ hf nullish
    rw [closed hf nullish]
    obtain ⟨asked, way⟩ := closesAndFails r env w₁
    exact ⟨asked, way, way.cut, way.shows, way.reads_return, way.calls⟩
  case never_normal =>
    intro f w₁ hf nullish
    rw [closed hf nullish]
    obtain ⟨asked, way⟩ := closesAndFails r env w₁
    exact way.not_ok
  case passes_on =>
    intro f w₁ call hf hc
    have callable := Store.isCallable_of_callOf? hc
    have run : adapterThrow (.object o) args env w = forward r f args .throwNotObject env w₁ := by
      rw [adapterThrow_apply h, found hf]
      simp only [isNullish_of_isCallable callable, callable, Bool.false_eq_true, if_false, if_true]
    rw [run]
    obtain ⟨calls, forwards, logs⟩ := forward_forwards r f args .throwNotObject rfl env w₁
    obtain ⟨asked, passes, made⟩ := forwards.passesOn hc
    refine ⟨asked, passes, ?_, passes.requests⟩
    intro log hl
    rw [made]
    exact logs hl

theorem adapterThrow_ofCall (h : w.machine.store.iteration? o = some (.adapter r)) (args : List Value) :
    (adapterThrow (.object o) args env w).ofCall = adapterThrow (.object o) args env w := by
  rw [adapterThrow_apply h]
  cases hm : getMethod (.object r.iterator) "throw" env w with
  | fault e w₁ => rfl
  | abrupt c w₁ =>
    have propagates := (Orderly.getMethod (.object r.iterator) "throw" env w c w₁ hm).propagates
    cases c with
    | returned v => exact propagates.elim
    | thrown | broken | continued => rfl
  | ok found w₁ =>
    cases found with
    | some f => exact (Orderly.forward r f args .throwNotObject).ofCall env w₁
    | none =>
      obtain ⟨asked, way⟩ := closesAndFails r env w₁
      exact way.ofCall

end

/-- A call of the `throw` of an adapter closes its iterator and fails if that has no `throw`, and passes the
    call on to one that can be called. -/
theorem adapter_throw_law {env : Env σ} {w : World σ} {o : ObjectId} {r : IteratorRecord} {f : Value}
    (ha : w.machine.store.iteration? o = some (.adapter r))
    (hf : behavior? w.machine.store f = some (.builtin .adapterThrow)) (host : Host σ) (args : List Value) :
    AdapterThrowLaw env r args w (call f (.object o) args (env.over host) w) := by
  have run : (env.over host).perform (.builtin .adapterThrow) (.object o) args w =
      adapterThrow (.object o) args env w := rfl
  rw [call_of_some hf, run, adapterThrow_ofCall ha]
  exact adapterThrowLaw ha args

/-- An adapter over the iterator whose `return` gives nothing; it has no `throw`. -/
def throwable : World (Unit × List Call) := (closableWorld []).add (.ofAdapter closableRecord)

/-- The `return` is called once and gives no object, so the call of `throw` throws a TypeError. -/
theorem a_throw_that_closes :
    let env := (Env.ofHost idle ⟨8⟩ ⟨64, 64⟩).logged
    let throwMethod : Value := .object ⟨24⟩
    let adapter : ObjectId := closable.store.fresh
    let out := call throwMethod (.object adapter) [.null] (env.over fun _ _ _ => return .undefined) throwable
    throwable.machine.store.iteration? adapter = some (.adapter closableRecord) ∧
      behavior? throwable.machine.store throwMethod = some (.builtin .adapterThrow) ∧
      AdapterThrowLaw env closableRecord [.null] throwable out ∧
      get closableRecord.iterator "throw" (.object closableRecord.iterator) env throwable = .ok .undefined throwable ∧
      ∀ v w', out ≠ .ok v w' := by
  intro env throwMethod adapter out
  have ha : throwable.machine.store.iteration? adapter = some (.adapter closableRecord) := rfl
  have hf : behavior? throwable.machine.store throwMethod = some (.builtin .adapterThrow) := rfl
  have missing : get closableRecord.iterator "throw" (.object closableRecord.iterator) env throwable =
      .ok .undefined throwable := rfl
  have law : AdapterThrowLaw env closableRecord [.null] throwable out := adapter_throw_law ha hf _ _
  exact ⟨ha, hf, law, missing, law.never_normal missing rfl⟩

end Act

end EcmaObjects
