/-
  EcmaObjects.Proofs.Refusal — what is refused leaves every object alone.

  A definition, a write and a change of prototype may be refused, and the last two may
  fail. What forbids them is all found before the first change, so there is nothing to
  undo. They end in one of few ways (`Verdict`): unless the change is granted or a setter
  was called, the world stays as it is, but for the error object of a failure. The setter that
  a write calls is known beforehand (`Store.setterCall?`), and the write calls nothing else
  (`set_logs`).
  `refused_leaves_alone` says for every operation that is refused, and for every one that
  fails and calls no setter, that each object is as it was.
-/

import EcmaObjects.Proofs.Close

namespace EcmaObjects

variable {σ : Type}

/-- The objects that were there are as they were, and those that were not are errors. -/
structure World.LeftAlone (w w' : World σ) : Prop where
  objects {o : ObjectId} {obj : Object} : w.machine.store.get? o = some obj → w'.machine.store.get? o = some obj
  errors {o : ObjectId} {obj : Object} :
    w.machine.store.get? o = none → w'.machine.store.get? o = some obj → obj.kind = .error
  rest : w' = { w with machine := { w.machine with store := w'.machine.store } }

theorem World.LeftAlone.refl (w : World σ) : w.LeftAlone w where
  objects h := h
  errors hn h := by rw [hn] at h; cases h
  rest := rfl

theorem World.leftAlone_withError (w : World σ) (cause : Cause) : w.LeftAlone (w.withError cause) where
  objects h := Store.get?_add_of_some h _
  errors hn h := by
    rw [show (w.withError cause).machine.store = w.machine.store.add _ from rfl, Store.get?_add] at h
    split at h
    · cases h
      rfl
    · rw [hn] at h
      cases h
  rest := rfl

/-! ## How a request for a change ends -/

/-- How native code that is called ends, as its caller sees it. -/
def Call.result (call : Call) (env : Env σ) (w : World σ) : Result σ Value :=
  (env.perform call.behavior call.this call.args w).ofCall

/-- The call that a write makes: of the setter which it finds, if that can be called. -/
def Store.setterCall? (s : Store) (k : PropertyKey) (limit : Nat) (o : ObjectId) (v receiver : Value) : Option Call :=
  match s.findForWrite k limit o with
  | .found d =>
    if d.isData then none else (Act.behavior? s (d.setter.getD .undefined)).map fun b => ⟨b, receiver, [v]⟩
  | .absent | .tooDeep => none

/-- A request that makes no call is granted; or it is refused or fails, and nothing has
    changed. One that makes a call ends as that does. -/
inductive Verdict (env : Env σ) (w : World σ) : Option Call → Result σ Bool → Prop
  | granted {w' : World σ} : w'.host = w.host → Verdict env w none (.ok true w')
  | refused : Verdict env w none (.ok false w)
  | failed (cause : Cause) :
      Verdict env w none (.abrupt (.thrown (.object w.machine.store.fresh)) (w.withError cause))
  | called {call : Call} {v : Value} {w' : World σ} : call.result env w = .ok v w' →
      Verdict env w (some call) (.ok true w')
  | calledFails {call : Call} {c : Abrupt} {w' : World σ} : call.result env w = .abrupt c w' →
      Verdict env w (some call) (.abrupt c w')
  | calledFaults {call : Call} {e : Fault} {w' : World σ} : call.result env w = .fault e w' →
      Verdict env w (some call) (.fault e w')

theorem Verdict.logs {env : Env σ} {w : World σ} {call : Option Call} {r : Result σ Bool} (h : Verdict env w call r)
    {log : σ → List Call} (hl : env.Logs log) : log r.world.host = log w.host ++ call.toList := by
  have noted (call : Call) : log (call.result env w).world.host = log w.host ++ [call] := by
    rw [Call.result, Result.world_ofCall, hl]
  cases h with
  | granted host =>
    rw [Result.world_ok, host]
    exact (List.append_nil _).symm
  | refused | failed => exact (List.append_nil _).symm
  | @called call v w' hr | @calledFails call c w' hr | @calledFaults call e w' hr =>
    have h := noted call
    rw [hr] at h
    exact h

namespace Act

variable (env : Env σ) (w : World σ)

theorem define_verdict (o : ObjectId) (k : PropertyKey) (d : Descriptor) : Verdict env w none (define o k d env w) := by
  rw [define_apply]
  cases w.machine.store.define? o k d with
  | none => exact .refused
  | some s => exact .granted rfl

/-- The only failure is the limit on the look for a cycle. -/
theorem setProto_verdict (o : ObjectId) (p : Option ObjectId) : Verdict env w none (setProto o p env w) := by
  have ends := setProto_reparents o p env w
  generalize setProto o p env w = result at ends ⊢
  cases ends with
  | missing | closed | cycle => exact .refused
  | unchanged | granted => exact .granted rfl
  | tooDeep => exact .failed .chainTooDeep

theorem assign_verdict (receiver : Value) (k : PropertyKey) (v : Value) :
    Verdict env w none (assign receiver k v env w) := by
  unfold assign
  split
  · rename_i r
    simp only [getOwn, bind_apply, store_apply, pure_apply]
    cases w.machine.store.own? r k with
    | none => exact define_verdict env w _ _ _
    | some existing =>
      cases h : existing.isAccessor || existing.writable == some false with
      | true =>
        simp only [h, if_true]
        exact .refused
      | false =>
        simp only [h, Bool.false_eq_true, if_false]
        exact define_verdict env w _ _ _
  · exact .refused

theorem callSetter_verdict (setter receiver v : Value) :
    Verdict env w ((behavior? w.machine.store setter).map fun b => ⟨b, receiver, [v]⟩)
      ((do let _ ← call setter receiver [v]; return true : Act σ Bool) env w) := by
  rw [bind_apply]
  cases hb : behavior? w.machine.store setter with
  | none =>
    rw [call_of_none hb]
    exact .failed .notCallable
  | some b =>
    rw [call_of_some hb]
    cases hr : (env.perform b receiver [v] w).ofCall with
    | ok u w₁ => exact .called hr
    | abrupt c w₁ => exact .calledFails hr
    | fault e w₁ => exact .calledFaults hr

theorem assignThrough_verdict (d : Descriptor) (receiver : Value) (k : PropertyKey) (v : Value) :
    Verdict env w
      (if d.isData then none
        else (behavior? w.machine.store (d.setter.getD .undefined)).map fun b => ⟨b, receiver, [v]⟩)
      (assignThrough d receiver k v env w) := by
  unfold assignThrough
  split
  · split
    · exact .refused
    · exact assign_verdict env w _ _ _
  · cases d.setter.getD .undefined with
    | undefined => exact .refused
    | _ => exact callSetter_verdict env w _ _ _

theorem set_verdict (o : ObjectId) (k : PropertyKey) (v receiver : Value) :
    Verdict env w (w.machine.store.setterCall? k env.maxDepth o v receiver) (set o k v receiver env w) := by
  simp only [set, bind_apply, store_apply, maxDepth_apply, Store.setterCall?]
  cases w.machine.store.findForWrite k env.maxDepth o with
  | found d => exact assignThrough_verdict env w _ _ _ _
  | absent => exact assign_verdict env w _ _ _
  | tooDeep => exact .failed .chainTooDeep

theorem set_logs {log : σ → List Call} (hl : env.Logs log) (o : ObjectId) (k : PropertyKey) (v receiver : Value) :
    log (set o k v receiver env w).world.host =
      log w.host ++ (w.machine.store.setterCall? k env.maxDepth o v receiver).toList :=
  (set_verdict env w o k v receiver).logs hl

end Act

/-! ## Refusals -/

/-- The world after an operation that was refused, or that failed with no setter called. -/
inductive Act.Refused (env : Env σ) (w : World σ) : World σ → Prop
  | define {o : ObjectId} {k : PropertyKey} {d : Descriptor} {w' : World σ} :
      Act.define o k d env w = .ok false w' → Refused env w w'
  | createData {o : ObjectId} {k : PropertyKey} {v : Value} {w' : World σ} :
      Act.createData o k v env w = .ok false w' → Refused env w w'
  | setProto {o : ObjectId} {p : Option ObjectId} {w' : World σ} :
      Act.setProto o p env w = .ok false w' → Refused env w w'
  | setProtoFails {o : ObjectId} {p : Option ObjectId} {c : Abrupt} {w' : World σ} :
      Act.setProto o p env w = .abrupt c w' → Refused env w w'
  | set {o : ObjectId} {k : PropertyKey} {v receiver : Value} {w' : World σ} :
      Act.set o k v receiver env w = .ok false w' → Refused env w w'
  | setFails {o : ObjectId} {k : PropertyKey} {v receiver : Value} {c : Abrupt} {w' : World σ} :
      Act.set o k v receiver env w = .abrupt c w' →
      w.machine.store.setterCall? k env.maxDepth o v receiver = none → Refused env w w'

/-- Whatever was refused has changed no object, and has made errors at most. -/
theorem refused_leaves_alone {env : Env σ} {w w' : World σ} (h : Act.Refused env w w') : w.LeftAlone w' := by
  have refused {call : Option Call} (verdict : Verdict env w call (.ok false w')) : w.LeftAlone w' := by
    cases verdict
    exact .refl w
  have failed {c : Abrupt} (verdict : Verdict env w none (.abrupt c w')) : w.LeftAlone w' := by
    cases verdict with
    | failed cause => exact w.leftAlone_withError cause
  cases h with
  | @define o k d _ h => exact refused (h ▸ Act.define_verdict env w o k d)
  | @createData o k v _ h =>
    have verdict : Verdict env w none (Act.createData o k v env w) := Act.define_verdict env w o k (.plain v)
    exact refused (h ▸ verdict)
  | @setProto o p _ h => exact refused (h ▸ Act.setProto_verdict env w o p)
  | @setProtoFails o p c _ h => exact failed (h ▸ Act.setProto_verdict env w o p)
  | @set o k v receiver _ h => exact refused (h ▸ Act.set_verdict env w o k v receiver)
  | @setFails o k v receiver c _ h silent =>
    have verdict := Act.set_verdict env w o k v receiver
    rw [h, silent] at verdict
    exact failed verdict

/-- A write that gives up, one link beyond the limit, adds its error and nothing else. -/
theorem a_write_gives_up :
    let w : World Unit := ⟨{ store := (Realm.store.add {}).add { proto := some ⟨25⟩ } }, ()⟩
    let env : Env Unit := .ofHost idle ⟨1⟩ ⟨64, 64⟩
    ∃ c w', Act.set ⟨26⟩ "x" .null (.object ⟨26⟩) env w = .abrupt c w' ∧
      w.machine.store.setterCall? "x" env.maxDepth ⟨26⟩ .null (.object ⟨26⟩) = none ∧
      w'.machine.store.size = 28 ∧ w.LeftAlone w' := by
  intro w env
  have fails : Act.set ⟨26⟩ "x" .null (.object ⟨26⟩) env w =
      .abrupt (.thrown (.object ⟨27⟩)) (w.withError .chainTooDeep) := rfl
  have silent : w.machine.store.setterCall? "x" env.maxDepth ⟨26⟩ .null (.object ⟨26⟩) = none := rfl
  exact ⟨_, _, fails, silent, rfl, refused_leaves_alone (.setFails fails silent)⟩

end EcmaObjects
