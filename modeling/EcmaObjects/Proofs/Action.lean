/-
  EcmaObjects.Proofs.Action — what actions come to at an environment and a world.

  The equations here run an action: each says what one way of making actions does, so
  that a proof about an operation unfolds the operation and nothing below it. A thrown
  error is a fresh object, the last one made, of the type that its cause has
  (`World.Raises`). A step of an iterator is one search for the next item, after which the
  record is marked or not (`Act.step_eq_tracked`). A change of prototype ends in one of six
  ways (`Act.Reparents`).
-/

import EcmaObjects.Evaluation
import EcmaObjects.Proofs.Store

namespace EcmaObjects

variable {σ α β : Type}

/-- The world at the end, however it ended. -/
def Result.world : Result σ α → World σ
  | .ok _ w | .abrupt _ w | .fault _ w => w

@[simp] theorem Result.world_ok (a : α) (w : World σ) : (Result.ok a w).world = w := rfl
@[simp] theorem Result.world_abrupt (c : Abrupt) (w : World σ) : (Result.abrupt c w : Result σ α).world = w := rfl
@[simp] theorem Result.world_fault (f : Fault) (w : World σ) : (Result.fault f w : Result σ α).world = w := rfl

/-- What a caller sees of a run of native code: a return is a normal end. -/
def Result.ofCall : Result σ Value → Result σ Value
  | .abrupt (.returned v) w => .ok v w
  | r => r

theorem Result.world_ofCall (r : Result σ Value) : r.ofCall.world = r.world := by
  cases r with
  | ok | fault => rfl
  | abrupt c w => cases c <;> rfl

theorem Result.ofCall_eq_abrupt {r : Result σ Value} {c : Abrupt} {w : World σ} (h : r.ofCall = .abrupt c w) :
    r = .abrupt c w ∧ ∀ v, c ≠ .returned v := by
  cases r with
  | ok | fault => cases h
  | abrupt c₁ w₁ =>
    cases c₁ with
    | returned v => cases h
    | thrown | broken | continued =>
      cases h
      exact ⟨rfl, fun _ e => nomatch e⟩

/-- The world with one object more. -/
def World.add (w : World σ) (obj : Object) : World σ :=
  { w with machine := { w.machine with store := w.machine.store.add obj } }

/-- The world after a failure of this cause was made into an error object. -/
def World.withError (w : World σ) (c : Cause) : World σ := w.add (.ofError c.errorType.prototype c.message)

theorem World.isError_withError (w : World σ) (c : Cause) :
    (w.withError c).machine.store.isError c.errorType (.object w.machine.store.fresh) = true := by
  have hg : (w.withError c).machine.store.get? w.machine.store.fresh =
      some (Object.ofError c.errorType.prototype c.message) := Store.get?_add_linked rfl _
  simp [Store.isError, Value.object?, hg, Object.ofError, Object.insertBuiltin, Object.insert]

/-- The world `w'` is `w` with one object more, `e`, which is an error of type `t` that this cause makes. -/
structure World.Raises (w : World σ) (t : ErrorType) (c : Cause) (e : ObjectId) (w' : World σ) : Prop where
  fresh : w.machine.store.get? e = none
  made : w' = w.withError c
  error : w'.machine.store.isError t (.object e) = true

theorem World.raises_withError (w : World σ) (c : Cause) :
    w.Raises c.errorType c w.machine.store.fresh (w.withError c) :=
  ⟨w.machine.store.get?_fresh, rfl, w.isError_withError c⟩

theorem World.Raises.host {w w' : World σ} {t : ErrorType} {c : Cause} {e : ObjectId} (h : w.Raises t c e w') :
    w'.host = w.host := by
  rw [h.made]
  rfl

/-- The error is the last object made. -/
theorem World.Raises.last {w w' : World σ} {t : ErrorType} {c : Cause} {e : ObjectId} (h : w.Raises t c e w') :
    e = w.machine.store.fresh := by
  by_cases last : e = w.machine.store.fresh
  · exact last
  have missing : w'.machine.store.get? e = none := by
    rw [h.made, World.withError, World.add, Store.get?_add, if_neg last, h.fresh]
  have error := h.error
  simp [Store.isError, Value.object?, missing] at error

/-- To throw the error is to end so. -/
theorem World.Raises.thrown {w w' : World σ} {t : ErrorType} {c : Cause} {e : ObjectId} (h : w.Raises t c e w') :
    (Result.abrupt (.thrown (.object w.machine.store.fresh)) (w.withError c) : Result σ α) =
      .abrupt (.thrown (.object e)) w' := by
  rw [h.last, h.made]

/-- A function can still be called when there are more objects. -/
theorem Store.behavior?_add_of_some {s : Store} {f : Value} {b : Behavior} (h : Act.behavior? s f = some b) (new : Object) :
    Act.behavior? (s.add new) f = some b := by
  cases f with
  | object o =>
    cases hg : s.get? o with
    | none => simp [Act.behavior?, Value.object?, hg] at h
    | some obj => simpa [Act.behavior?, Value.object?, hg, get?_add_of_some hg] using h
  | _ => cases h

namespace Act

/-! ## Sequencing -/

section
variable (env : Env σ) (w : World σ)

@[simp] theorem pure_apply (a : α) : (pure a : Act σ α) env w = .ok a w := rfl

theorem bind_apply (x : Act σ α) (f : α → Act σ β) :
    (x >>= f) env w = match x env w with
      | .ok a w₁ => f a env w₁
      | .abrupt c w₁ => .abrupt c w₁
      | .fault e w₁ => .fault e w₁ := rfl

theorem bind_eq_ok {env : Env σ} {w : World σ} {x : Act σ α} {f : α → Act σ β} {w' : World σ} {b : β}
    (h : (x >>= f) env w = .ok b w') : ∃ a w₁, x env w = .ok a w₁ ∧ f a env w₁ = .ok b w' := by
  rw [bind_apply] at h
  cases hx : x env w with
  | ok a w₁ => exact ⟨a, w₁, rfl, by rw [hx] at h; exact h⟩
  | abrupt c w₁ | fault e w₁ => rw [hx] at h; cases h

theorem bind_eq_abrupt {env : Env σ} {w : World σ} {x : Act σ α} {f : α → Act σ β} {w' : World σ} {c : Abrupt}
    (h : (x >>= f) env w = .abrupt c w') :
    x env w = .abrupt c w' ∨ ∃ a w₁, x env w = .ok a w₁ ∧ f a env w₁ = .abrupt c w' := by
  rw [bind_apply] at h
  cases hx : x env w with
  | ok a w₁ => exact .inr ⟨a, w₁, rfl, by rw [hx] at h; exact h⟩
  | abrupt c₁ w₁ =>
    rw [hx] at h
    cases h
    exact .inl rfl
  | fault e w₁ => rw [hx] at h; cases h

@[simp] theorem raise_apply (c : Abrupt) : (raise c : Act σ α) env w = .abrupt c w := rfl
@[simp] theorem fail_apply (f : Fault) : (fail f : Act σ α) env w = .fault f w := rfl

theorem attempt_apply (x : Act σ α) :
    attempt x env w = match x env w with
      | .ok a w₁ => .ok (.ok a) w₁
      | .abrupt c w₁ => .ok (.error c) w₁
      | .fault e w₁ => .fault e w₁ := rfl

theorem completion_apply (x : Act σ Value) :
    completion x env w = match x env w with
      | .ok v w₁ => .ok (.normal v) w₁
      | .abrupt c w₁ => .ok (.abrupt c) w₁
      | .fault e w₁ => .fault e w₁ := by
  simp only [completion, bind_apply, attempt_apply]
  cases x env w <;> rfl

/-! ## The environment and the world -/

@[simp] theorem maxDepth_apply : (maxDepth : Act σ Nat) env w = .ok env.maxDepth w := rfl
@[simp] theorem rounds_apply : (rounds : Act σ Nat) env w = .ok env.rounds w := rfl
@[simp] theorem store_apply : (store : Act σ Store) env w = .ok w.machine.store w := rfl
@[simp] theorem perform_apply (b : Behavior) (this : Value) (args : List Value) :
    perform b this args env w = env.perform b this args w := rfl
@[simp] theorem create_apply (obj : Object) : create obj env w = .ok w.machine.store.fresh (w.add obj) := rfl

/-! ## Errors -/

/-- A cause is thrown as a fresh error object of its type with its message. -/
@[simp] theorem throwCause_apply (c : Cause) :
    (throwCause c : Act σ α) env w =
      .abrupt (.thrown (.object w.machine.store.fresh)) (w.withError c) := rfl

end

/-! ## Runs -/

section
variable {host : Host σ} {config : Config} {budget : Budget} {w w₁ : World σ} {x : Act σ α} {f : α → Act σ β} {a : α}

theorem run_bind_of_ok (h : x.run host config budget w = .ok a w₁) :
    (x >>= f).run host config budget w = (f a).run host config budget w₁ := by
  rw [run, bind_apply, show x (.ofHost host config budget) w = .ok a w₁ from h]
  rfl

/-- What does not end normally is not gone on with. -/
theorem world_run_bind (h : ∀ a w₁, x.run host config budget w ≠ .ok a w₁) :
    ((x >>= f).run host config budget w).world = (x.run host config budget w).world := by
  rw [run, run, bind_apply]
  cases hx : x (.ofHost host config budget) w with
  | ok a w₁ => exact absurd hx (h a w₁)
  | abrupt c w₁ | fault e w₁ => rfl

theorem world_run_attempt (x : Act σ α) (host : Host σ) (config : Config) (budget : Budget) (w : World σ) :
    ((attempt x).run host config budget w).world = (x.run host config budget w).world := by
  rw [run, run, attempt_apply]
  cases x (.ofHost host config budget) w <;> rfl

end

/-! ## Calls -/

/-- A call of a callable value performs its behavior once; a return counts as a normal end. -/
theorem callFunction_apply {f : Value} {b : Behavior} {env : Env σ} {w : World σ}
    (h : behavior? w.machine.store f = some b) (this : Value) (args : List Value) :
    callFunction f this args env w = match env.perform b this args w with
      | .ok v w₁ => .ok (.normal v) w₁
      | .abrupt c w₁ => .ok (Completion.ofCall (.abrupt c)) w₁
      | .fault e w₁ => .fault e w₁ := by
  simp only [callFunction, bind_apply, store_apply, h, completion_apply, perform_apply]
  cases env.perform b this args w <;> rfl

/-- A call has a completion, or is broken off. -/
theorem callFunction_ne_abrupt (f this : Value) (args : List Value) (env : Env σ) (w w' : World σ) (c : Abrupt) :
    callFunction f this args env w ≠ .abrupt c w' := by
  cases hb : behavior? w.machine.store f with
  | none =>
    simp only [callFunction, bind_apply, store_apply, hb, completion_apply, throwCause_apply]
    exact fun h => nomatch h
  | some b =>
    rw [callFunction_apply hb]
    cases env.perform b this args w <;> exact fun h => nomatch h

theorem isCallable_iff {s : Store} {f : Value} : s.isCallable f = true ↔ ∃ b, behavior? s f = some b := by
  cases h : f.object?.bind s.get? with
  | none => simp [Store.isCallable, behavior?, h]
  | some obj =>
    cases hf : obj.function with
    | none => simp [Store.isCallable, behavior?, h, Object.isCallable, hf]
    | some g => simp [Store.isCallable, behavior?, h, Object.isCallable, hf]

theorem call_of_none {f : Value} {env : Env σ} {w : World σ} (h : behavior? w.machine.store f = none) (this : Value)
    (args : List Value) :
    call f this args env w = .abrupt (.thrown (.object w.machine.store.fresh)) (w.withError .notCallable) := by
  simp only [call, callFunction, bind_apply, store_apply, h, completion_apply, throwCause_apply]
  rfl

theorem call_of_some {f : Value} {b : Behavior} {env : Env σ} {w : World σ} (h : behavior? w.machine.store f = some b)
    (this : Value) (args : List Value) : call f this args env w = (env.perform b this args w).ofCall := by
  rw [call, bind_apply, callFunction_apply h]
  cases env.perform b this args w with
  | ok v w₁ | fault e w₁ => rfl
  | abrupt c w₁ => cases c <;> rfl

/-! ## Steps of an iterator -/

end Act

/-- The record after a step with this outcome. -/
def IteratorRecord.after (r : IteratorRecord) : Except Abrupt (Option α) → IteratorRecord
  | .ok (some _) => r
  | .ok none | .error _ => r.ended

namespace Act

/-- The next result object; none at the end. -/
def advance (r : IteratorRecord) : Act σ (Option ObjectId) := do
  let result ← next r none
  return if ← resultDone result then none else some result

/-- The next value; none at the end. -/
def advanceValue (r : IteratorRecord) : Act σ (Option Value) := do
  match ← advance r with
  | some result => return some (← resultValue result)
  | none => return none

/-- How an action ended, with the record after a step that ends so. -/
def tracked (r : IteratorRecord) (x : Act σ (Option α)) : Act σ (Except Abrupt (Option α) × IteratorRecord) := do
  let outcome ← attempt x
  return (outcome, r.after outcome)

/-- What a step gives decides whether the record gets marked, wherever on the way that happens. -/
theorem step_eq_tracked (r : IteratorRecord) :
    (step r : Act σ (Except Abrupt (Option ObjectId) × IteratorRecord)) = tracked r (advance r) := by
  funext env w
  simp only [step, tracked, advance, bind_apply, attempt_apply]
  cases next r none env w with
  | ok result w₁ =>
    simp only [bind_apply, attempt_apply]
    cases resultDone result env w₁ with
    | ok done w₂ => cases done <;> rfl
    | abrupt c w₂ | fault e w₂ => rfl
  | abrupt c w₁ | fault e w₁ => rfl

theorem stepValue_eq_tracked (r : IteratorRecord) :
    (stepValue r : Act σ (Except Abrupt (Option Value) × IteratorRecord)) = tracked r (advanceValue r) := by
  funext env w
  rw [stepValue, step_eq_tracked]
  simp only [tracked, advanceValue, bind_apply, attempt_apply]
  cases advance r env w with
  | ok found w₁ =>
    cases found with
    | none => rfl
    | some result =>
      -- The record is not marked yet, so the value alone decides.
      simp only [pure_apply, IteratorRecord.after, bind_apply, attempt_apply]
      cases resultValue result env w₁ <;> rfl
  | abrupt c w₁ | fault e w₁ => rfl

/-- A drain takes one value after another; the mark on its record is for nobody. -/
theorem drain_step (r : IteratorRecord) (n : Nat) (collected : List Value) :
    (drain r (n + 1) collected : Act σ (List Value)) = (do
      match ← advanceValue r with
      | some v => drain r n (v :: collected)
      | none => return collected.reverse) := by
  funext env w
  rw [drain, stepValue_eq_tracked]
  simp only [tracked, bind_apply, attempt_apply]
  cases advanceValue r env w with
  | ok item w₁ => cases item <;> rfl
  | abrupt c w₁ | fault e w₁ => rfl

/-! ## Definitions -/

theorem define_apply (o : ObjectId) (k : PropertyKey) (d : Descriptor) (env : Env σ) (w : World σ) :
    define o k d env w = match w.machine.store.define? o k d with
      | some s => .ok true { w with machine := { w.machine with store := s } }
      | none => .ok false w := by
  simp only [define, bind_apply, store_apply]
  cases w.machine.store.define? o k d <;> rfl

/-- A definition is granted where the object accepts it. -/
theorem define_eq_true {o : ObjectId} {k : PropertyKey} {d : Descriptor} {env : Env σ} {w w' : World σ} :
    define o k d env w = .ok true w' ↔
      ∃ s, w.machine.store.define? o k d = some s ∧ w' = { w with machine := { w.machine with store := s } } := by
  rw [define_apply]
  cases w.machine.store.define? o k d with
  | none => simp
  | some s => simp [eq_comm]

/-! ## Prototypes -/

/-- How a change of prototype ends, and why. -/
inductive Reparents (env : Env σ) (w : World σ) (o : ObjectId) (p : Option ObjectId) : Result σ Bool → Prop
  | missing : w.machine.store.get? o = none → Reparents env w o p (.ok false w)
  | unchanged {obj : Object} : w.machine.store.get? o = some obj → obj.proto = p → Reparents env w o p (.ok true w)
  | closed {obj : Object} : w.machine.store.get? o = some obj → obj.extensible = false →
      Reparents env w o p (.ok false w)
  | cycle : w.machine.store.reparent? o env.maxDepth p = some false → Reparents env w o p (.ok false w)
  | tooDeep : w.machine.store.reparent? o env.maxDepth p = none →
      Reparents env w o p (.abrupt (.thrown (.object w.machine.store.fresh)) (w.withError .chainTooDeep))
  | granted {obj : Object} : w.machine.store.get? o = some obj → obj.extensible = true →
      w.machine.store.reparent? o env.maxDepth p = some true →
      Reparents env w o p (.ok true { w with machine := { w.machine with
        store := w.machine.store.modify o fun obj => { obj with proto := w.machine.store.link? p } } })

theorem setProto_reparents (o : ObjectId) (p : Option ObjectId) (env : Env σ) (w : World σ) :
    Reparents env w o p (setProto o p env w) := by
  simp only [setProto, bind_apply, store_apply]
  cases hg : w.machine.store.get? o with
  | none => exact .missing hg
  | some obj =>
    by_cases hp : obj.proto = p
    · simp only [hp, if_true]
      exact .unchanged hg hp
    cases hx : obj.extensible with
    | false =>
      simp only [hp, hx, if_false, Bool.not_false, if_true]
      exact .closed hg hx
    | true =>
      simp only [hp, hx, if_false, Bool.not_true, Bool.false_eq_true, bind_apply, maxDepth_apply]
      cases hr : w.machine.store.reparent? o env.maxDepth p with
      | none => exact .tooDeep hr
      | some b =>
        cases b with
        | false => exact .cycle hr
        | true => exact .granted hg hx hr

end Act

/-- A host whose functions do nothing. -/
def idle : Host Unit := fun _ _ _ => return .undefined

end EcmaObjects
