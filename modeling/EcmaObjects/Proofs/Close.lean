/-
  EcmaObjects.Proofs.Close — closing an iterator, at once and with a wait.

  Both closes begin alike: they look `return` up and call it, if there is anything to
  call (`callReturn`). How that ended is merged with the reason for the close (`Merged`),
  by the one at once, by the other after the wait for what `return` gave.
  - `close_law`: what a close comes to, for every way in which the lookup and the call of
    `return` may end; and that a callable `return` is called exactly once, which is read
    off the calls that an environment notes (`Env.Logs`).
  - `closeAsync_refines_close`: the close with a wait does what the close at once does, if
    the wait changes nothing; it waits if and only if `return` was called and ended
    normally; and its end depends on the reason and the outcome of the wait alone.
-/

import EcmaObjects.Iterator.Async
import EcmaObjects.Proofs.Action

namespace EcmaObjects

variable {σ α : Type}

/-! ## Notes of calls -/

structure Call where
  behavior : Behavior
  this : Value
  args : List Value
  deriving DecidableEq, Repr

/-- Every call that the environment performs is noted once, at the end of a log that its host keeps. -/
def Env.Logs (env : Env σ) (log : σ → List Call) : Prop :=
  ∀ b this args w, log (env.perform b this args w).world.host = log w.host ++ [⟨b, this, args⟩]

/-- The environment with a log beside what its host keeps. -/
def Env.logged (env : Env σ) : Env (σ × List Call) where
  maxDepth := env.maxDepth
  rounds := env.rounds
  perform b this args w :=
    let calls := w.host.2 ++ [⟨b, this, args⟩]
    match env.perform b this args ⟨w.machine, w.host.1⟩ with
    | .ok v w => .ok v ⟨w.machine, w.host, calls⟩
    | .abrupt c w => .abrupt c ⟨w.machine, w.host, calls⟩
    | .fault e w => .fault e ⟨w.machine, w.host, calls⟩

theorem Env.logs_logged (env : Env σ) : env.logged.Logs Prod.snd := by
  intro b this args w
  simp only [logged]
  cases env.perform b this args ⟨w.machine, w.host.1⟩ <;> rfl

/-! ## Results apart from the host -/

def Result.withoutHost : Result σ α → Result Unit α
  | .ok a w => .ok a ⟨w.machine, ()⟩
  | .abrupt c w => .abrupt c ⟨w.machine, ()⟩
  | .fault e w => .fault e ⟨w.machine, ()⟩

namespace Act

/-! ## Merging -/

/-- How a close ends, by the reason for it and how `return` ended, in the world after that. -/
structure Merged (reason inner : Completion) (w : World σ) (out : Result σ Completion) : Prop where
  abrupt : reason.isAbrupt = true → out = .ok reason w
  failed {v : Value} {a : Abrupt} : reason = .normal v → inner = .abrupt a → out = .ok inner w
  object {v u : Value} : reason = .normal v → inner = .normal u → u.isObject = true → out = .ok reason w
  other {v u : Value} : reason = .normal v → inner = .normal u → u.isObject = false →
    ∃ e w', w.Raises .typeError .returnNotObject e w' ∧ out = .ok (.abrupt (.thrown (.object e))) w'

theorem mergeClose_merged (reason inner : Completion) (env : Env σ) (w : World σ) :
    Merged reason inner w (mergeClose reason inner env w) := by
  constructor
  · intro h
    cases reason with
    | normal v => cases h
    | abrupt a => rfl
  · rintro v a rfl rfl
    rfl
  · rintro v u rfl rfl hu
    simp only [mergeClose, hu, if_true, pure_apply]
  · rintro v u rfl rfl hu
    refine ⟨_, _, w.raises_withError .returnNotObject, ?_⟩
    simp only [mergeClose, hu, Bool.false_eq_true, if_false, completion_apply, throwCause_apply]

theorem mergeClose_host (reason inner : Completion) (env : Env σ) (w : World σ) :
    (mergeClose reason inner env w).world.host = w.host := by
  unfold mergeClose
  split
  · rfl
  · rfl
  · split <;> rfl

theorem mergeClose_withoutHost (reason inner : Completion) (env : Env σ) {w w' : World σ} (h : w.machine = w'.machine) :
    (mergeClose reason inner env w).withoutHost = (mergeClose reason inner env w').withoutHost := by
  obtain ⟨m, host⟩ := w
  obtain ⟨m', host'⟩ := w'
  obtain rfl : m = m' := h
  unfold mergeClose
  split
  · rfl
  · rfl
  · split <;> rfl

/-! ## The call of `return` -/

theorem getMethod_apply (v : Value) (k : PropertyKey) (env : Env σ) (w : World σ) :
    getMethod v k env w = match getV v k env w with
      | .ok f w₁ =>
        if f.isNullish then .ok none w₁
        else if w₁.machine.store.isCallable f then .ok (some f) w₁
        else .abrupt (.thrown (.object w₁.machine.store.fresh)) (w₁.withError (.methodNotCallable k))
      | .abrupt c w₁ => .abrupt c w₁
      | .fault e w₁ => .fault e w₁ := by
  simp only [getMethod, bind_apply]
  cases getV v k env w with
  | ok f w₁ =>
    by_cases hn : f.isNullish = true
    · simp [hn]
    by_cases hc : w₁.machine.store.isCallable f = true
    · simp [hn, hc, isCallable, bind_apply]
    · simp [hn, hc, isCallable, bind_apply]
  | abrupt c w₁ => rfl
  | fault e w₁ => rfl

/-- What both closes do first: how the lookup or the call of `return` ended, if there was anything to call. -/
def callReturn (r : IteratorRecord) : Act σ (Option Completion) := do
  match ← attempt (getMethod (.object r.iterator) "return") with
  | .ok none => return none
  | .ok (some f) => return some (← callFunction f (.object r.iterator) [])
  | .error a => return some (.abrupt a)

theorem callReturn_bind (r : IteratorRecord) (absent : Act σ α) (finish : Completion → Act σ α) :
    (do match ← attempt (getMethod (.object r.iterator) "return") with
      | .ok none => absent
      | .ok (some f) => finish (← callFunction f (.object r.iterator) [])
      | .error a => finish (.abrupt a)) =
    (do match ← callReturn r with
      | none => absent
      | some inner => finish inner) := by
  funext env w
  simp only [callReturn, bind_apply, attempt_apply]
  cases getMethod (.object r.iterator) "return" env w with
  | ok f w₁ =>
    cases f with
    | none => rfl
    | some f =>
      simp only [bind_apply]
      cases callFunction f (.object r.iterator) [] env w₁ <;> rfl
  | abrupt c w₁ => rfl
  | fault e w₁ => rfl

theorem close_eq (r : IteratorRecord) (reason : Completion) :
    (close r reason : Act σ Completion) = (do match ← callReturn r with
      | none => return reason
      | some inner => mergeClose reason inner) :=
  callReturn_bind r _ _

theorem closeAsync_eq (r : IteratorRecord) (reason : Completion) :
    (closeAsync r reason : Act σ AsyncClose) = (do match ← callReturn r with
      | none => return .complete reason
      | some inner => afterReturn reason inner) :=
  callReturn_bind r _ _

section
variable {r : IteratorRecord} {env : Env σ} {w w₁ w₂ : World σ} {f : Value}

theorem callReturn_absent (h : getV (.object r.iterator) "return" env w = .ok f w₁) (hf : f.isNullish = true) :
    callReturn r env w = .ok none w₁ := by
  simp [callReturn, bind_apply, attempt_apply, getMethod_apply, h, hf]

theorem callReturn_fails {a : Abrupt} (h : getV (.object r.iterator) "return" env w = .abrupt a w₁) :
    callReturn r env w = .ok (some (.abrupt a)) w₁ := by
  simp [callReturn, bind_apply, attempt_apply, getMethod_apply, h]

theorem callReturn_faults {e : Fault} (h : getV (.object r.iterator) "return" env w = .fault e w₁) :
    callReturn r env w = .fault e w₁ := by
  simp [callReturn, bind_apply, attempt_apply, getMethod_apply, h]

theorem callReturn_not_callable (h : getV (.object r.iterator) "return" env w = .ok f w₁) (hf : f.isNullish = false)
    (hc : w₁.machine.store.isCallable f = false) :
    callReturn r env w =
      .ok (some (.abrupt (.thrown (.object w₁.machine.store.fresh)))) (w₁.withError (.methodNotCallable "return")) := by
  simp [callReturn, bind_apply, attempt_apply, getMethod_apply, h, hf, hc]

theorem isNullish_of_isCallable {s : Store} (h : s.isCallable f = true) : f.isNullish = false := by
  cases f with
  | undefined | null => cases h
  | _ => rfl

theorem callReturn_called (h : getV (.object r.iterator) "return" env w = .ok f w₁)
    (hc : w₁.machine.store.isCallable f = true) :
    callReturn r env w = match callFunction f (.object r.iterator) [] env w₁ with
      | .ok c w₂ => .ok (some c) w₂
      | .abrupt c w₂ => .abrupt c w₂
      | .fault e w₂ => .fault e w₂ := by
  simp only [callReturn, bind_apply, attempt_apply, getMethod_apply, h, isNullish_of_isCallable hc, hc, if_true,
    Bool.false_eq_true, if_false]
  cases callFunction f (.object r.iterator) [] env w₁ <;> rfl

theorem callFunction_logs {log : σ → List Call} (hl : env.Logs log) {b : Behavior}
    (hb : behavior? w.machine.store f = some b) (this : Value) (args : List Value) :
    log (callFunction f this args env w).world.host = log w.host ++ [⟨b, this, args⟩] := by
  have h := hl b this args w
  rw [callFunction_apply hb]
  cases hp : env.perform b this args w with
  | ok v w₁ | abrupt c w₁ | fault e w₁ => rw [hp] at h; exact h

/-- The lookup of `return` is followed by one call, if there is something to call, and by none otherwise. -/
theorem callReturn_logs {log : σ → List Call} (hl : env.Logs log)
    (h : getV (.object r.iterator) "return" env w = .ok f w₁) :
    log (callReturn r env w).world.host =
      log w₁.host ++ (behavior? w₁.machine.store f).toList.map fun b => ⟨b, .object r.iterator, []⟩ := by
  cases hb : behavior? w₁.machine.store f with
  | some b =>
    have hc := callFunction_logs hl hb (.object r.iterator) []
    rw [callReturn_called h (isCallable_iff.mpr ⟨b, hb⟩)]
    cases hr : callFunction f (.object r.iterator) [] env w₁ with
    | ok c w₂ | abrupt c w₂ | fault e w₂ => rw [hr] at hc; exact hc
  | none =>
    have hc : w₁.machine.store.isCallable f = false := by
      rw [Bool.eq_false_iff]
      intro hc
      obtain ⟨b, hb'⟩ := isCallable_iff.mp hc
      rw [hb] at hb'
      cases hb'
    by_cases hf : f.isNullish = true
    · rw [callReturn_absent h hf]
      simp
    · rw [callReturn_not_callable h (Bool.eq_false_iff.mpr hf) hc]
      simp [World.withError, World.add]

end

theorem close_host (r : IteratorRecord) (reason : Completion) (env : Env σ) (w : World σ) :
    (close r reason env w).world.host = (callReturn r env w).world.host := by
  simp only [close_eq, bind_apply]
  cases callReturn r env w with
  | ok c w₁ =>
    cases c with
    | none => rfl
    | some inner => exact mergeClose_host reason inner env w₁
  | abrupt c w₁ => rfl
  | fault e w₁ => rfl

/-! ## The close at once -/

/-- What a close comes to, by what the lookup of `return` and its call do. -/
structure CloseLaw (r : IteratorRecord) (reason : Completion) (env : Env σ) (w : World σ) : Prop where
  lookup_faults {e : Fault} {w₁ : World σ} :
    getV (.object r.iterator) "return" env w = .fault e w₁ → close r reason env w = .fault e w₁
  lookup_fails {a : Abrupt} {w₁ : World σ} :
    getV (.object r.iterator) "return" env w = .abrupt a w₁ → Merged reason (.abrupt a) w₁ (close r reason env w)
  absent {f : Value} {w₁ : World σ} :
    getV (.object r.iterator) "return" env w = .ok f w₁ → f.isNullish = true → close r reason env w = .ok reason w₁
  not_callable {f : Value} {w₁ : World σ} :
    getV (.object r.iterator) "return" env w = .ok f w₁ → f.isNullish = false →
    w₁.machine.store.isCallable f = false →
    ∃ e w₂, w₁.Raises .typeError (.methodNotCallable "return") e w₂ ∧
      Merged reason (.abrupt (.thrown (.object e))) w₂ (close r reason env w)
  call_faults {f : Value} {e : Fault} {w₁ w₂ : World σ} :
    getV (.object r.iterator) "return" env w = .ok f w₁ → w₁.machine.store.isCallable f = true →
    callFunction f (.object r.iterator) [] env w₁ = .fault e w₂ → close r reason env w = .fault e w₂
  called {f : Value} {inner : Completion} {w₁ w₂ : World σ} :
    getV (.object r.iterator) "return" env w = .ok f w₁ → w₁.machine.store.isCallable f = true →
    callFunction f (.object r.iterator) [] env w₁ = .ok inner w₂ → Merged reason inner w₂ (close r reason env w)
  /-- Whatever the reason and however it ends, what can be called is called once, and nothing else is. -/
  once {log : σ → List Call} {f : Value} {w₁ : World σ} : env.Logs log →
    getV (.object r.iterator) "return" env w = .ok f w₁ →
    log (close r reason env w).world.host =
      log w₁.host ++ (behavior? w₁.machine.store f).toList.map fun b => ⟨b, .object r.iterator, []⟩

theorem close_law (r : IteratorRecord) (reason : Completion) (env : Env σ) (w : World σ) : CloseLaw r reason env w := by
  constructor
  · intro e w₁ h
    simp only [close_eq, bind_apply, callReturn_faults h]
  · intro a w₁ h
    simp only [close_eq, bind_apply, callReturn_fails h]
    exact mergeClose_merged _ _ _ _
  · intro f w₁ h hf
    simp only [close_eq, bind_apply, callReturn_absent h hf, pure_apply]
  · intro f w₁ h hf hc
    refine ⟨_, _, w₁.raises_withError (.methodNotCallable "return"), ?_⟩
    simp only [close_eq, bind_apply, callReturn_not_callable h hf hc]
    exact mergeClose_merged _ _ _ _
  · intro f e w₁ w₂ h hc hr
    simp only [close_eq, bind_apply, callReturn_called h hc, hr]
  · intro f inner w₁ w₂ h hc hr
    simp only [close_eq, bind_apply, callReturn_called h hc, hr]
    exact mergeClose_merged _ _ _ _
  · intro log f w₁ hl h
    rw [close_host]
    exact callReturn_logs hl h

/-! ## An iterator whose `return` gives nothing -/

/-- The first machine with a function, and with an iterator that has it as its `return`. -/
def closable : Machine :=
  { store := (Realm.store.add (.ofFunction ⟨"return", 0, .host 0⟩)).add
      (({} : Object).insert "return" (.plain (.object Realm.store.fresh))) }

def closableRecord : IteratorRecord := { iterator := ⟨Realm.store.size + 1⟩, next := .undefined }

/-- The world of that machine, with the calls that were made. -/
def closableWorld (calls : List Call) : World (Unit × List Call) := ⟨closable, (), calls⟩

theorem closable_lookup (env : Env (Unit × List Call)) (calls : List Call) :
    getV (.object closableRecord.iterator) "return" { env with maxDepth := 8 } (closableWorld calls) =
      .ok (.object Realm.store.fresh) (closableWorld calls) := rfl

/-- Its `return` is called once, whatever the reason; as it gives no object, a close for no bad reason throws. -/
theorem a_close_that_gets_no_object :
    let env := (Env.ofHost idle ⟨8⟩ ⟨64, 64⟩).logged
    let call : Call := ⟨.host 0, .object closableRecord.iterator, []⟩
    (∃ e w', (closableWorld [call]).Raises .typeError .returnNotObject e w' ∧
      close closableRecord (.normal .null) env (closableWorld []) = .ok (.abrupt (.thrown (.object e))) w') ∧
    ∀ reason, (close closableRecord reason env (closableWorld [])).world.host.2 = [call] := by
  intro env call
  have hg := closable_lookup env []
  have hc : closable.store.isCallable (.object Realm.store.fresh) = true := by decide
  have hr : callFunction (.object Realm.store.fresh) (.object closableRecord.iterator) [] env (closableWorld []) =
      .ok (.normal .undefined) (closableWorld [call]) := rfl
  refine ⟨((close_law closableRecord (.normal .null) env _).called hg hc hr).other rfl rfl rfl, fun reason => ?_⟩
  exact (close_law closableRecord reason env _).once (Env.logs_logged _) hg

/-! ## The close with a wait -/

/-- The call of `return` ends normally only where there was something to call. -/
theorem callReturn_eq_normal {r : IteratorRecord} {env : Env σ} {w w' : World σ} {v : Value} :
    callReturn r env w = .ok (some (.normal v)) w' ↔
      ∃ f w₁, getV (.object r.iterator) "return" env w = .ok f w₁ ∧ w₁.machine.store.isCallable f = true ∧
        callFunction f (.object r.iterator) [] env w₁ = .ok (.normal v) w' := by
  constructor
  · intro h
    cases hg : getV (.object r.iterator) "return" env w with
    | ok f w₁ =>
      by_cases hc : w₁.machine.store.isCallable f = true
      · refine ⟨f, w₁, rfl, hc, ?_⟩
        rw [callReturn_called hg hc] at h
        cases hr : callFunction f (.object r.iterator) [] env w₁ with
        | ok c w₂ => rw [hr] at h; cases h; rfl
        | abrupt c w₂ | fault e w₂ => rw [hr] at h; cases h
      · by_cases hf : f.isNullish = true
        · rw [callReturn_absent hg hf] at h
          cases h
        · rw [callReturn_not_callable hg (Bool.eq_false_iff.mpr hf) (Bool.eq_false_iff.mpr hc)] at h
          cases h
    | abrupt a w₁ => rw [callReturn_fails hg] at h; cases h
    | fault e w₁ => rw [callReturn_faults hg] at h; cases h
  · rintro ⟨f, w₁, hg, hc, hr⟩
    rw [callReturn_called hg hc, hr]

/-- A close waits for a value that the call of `return` gave, and remembers its reason. -/
theorem closeAsync_eq_awaiting {r : IteratorRecord} {reason : Completion} {env : Env σ} {w w' : World σ}
    {p : PendingClose} :
    closeAsync r reason env w = .ok (.awaiting p) w' ↔
      p.reason = reason ∧ callReturn r env w = .ok (some (.normal p.awaited)) w' := by
  obtain ⟨reason', awaited⟩ := p
  simp only [closeAsync_eq, bind_apply]
  cases hr : callReturn r env w with
  | ok c w₁ =>
    cases c with
    | none => simp
    | some inner =>
      cases inner with
      | normal v => simp [afterReturn, and_assoc, eq_comm]
      | abrupt a =>
        have hm := mergeClose_merged reason (.abrupt a) env w₁
        cases reason with
        | normal u => simp [afterReturn, bind_apply, hm.failed rfl rfl]
        | abrupt b => simp [afterReturn, bind_apply, hm.abrupt rfl]
  | abrupt c w₁ => simp
  | fault e w₁ => simp

/-- If a close comes to wait, the wait settles with the value and leaves the machine alone. -/
def SettlesAtOnce (await : Value → Act σ Completion) (r : IteratorRecord) (reason : Completion) (env : Env σ)
    (w : World σ) : Prop :=
  ∀ p w₁, closeAsync r reason env w = .ok (.awaiting p) w₁ →
    ∃ host, await p.awaited env w₁ = .ok (.normal p.awaited) ⟨w₁.machine, host⟩

theorem closeAsyncWith_eq_close {await : Value → Act σ Completion} {r : IteratorRecord} {reason : Completion}
    {env : Env σ} {w : World σ} (h : SettlesAtOnce await r reason env w) :
    (closeAsyncWith await r reason env w).withoutHost = (close r reason env w).withoutHost := by
  have waits {p : PendingClose} {w₁ : World σ} := h p w₁
  simp only [closeAsync_eq, bind_apply] at waits
  simp only [closeAsyncWith, closeAsync_eq, close_eq, bind_apply]
  cases hr : callReturn r env w with
  | ok c w₁ =>
    cases c with
    | none => rfl
    | some inner =>
      simp only [hr] at waits
      cases inner with
      | normal v =>
        obtain ⟨host, ha⟩ := waits rfl
        simp only [afterReturn, pure_apply, bind_apply, ha, resume]
        exact mergeClose_withoutHost _ _ _ rfl
      | abrupt a =>
        simp only [afterReturn, bind_apply]
        cases mergeClose reason (.abrupt a) env w₁ <;> rfl
  | abrupt c w₁ => rfl
  | fault e w₁ => rfl

/-- What a close with a wait comes to, beside the close at once. -/
structure AsyncCloseLaw (r : IteratorRecord) (reason : Completion) (env : Env σ) (w : World σ) : Prop where
  agrees {await : Value → Act σ Completion} : SettlesAtOnce await r reason env w →
    (closeAsyncWith await r reason env w).withoutHost = (close r reason env w).withoutHost
  waits_iff {p : PendingClose} {w' : World σ} :
    closeAsync r reason env w = .ok (.awaiting p) w' ↔
      p.reason = reason ∧ ∃ f w₁, getV (.object r.iterator) "return" env w = .ok f w₁ ∧
        w₁.machine.store.isCallable f = true ∧
        callFunction f (.object r.iterator) [] env w₁ = .ok (.normal p.awaited) w'
  /-- Whatever came between, in whatever environment and world the close goes on. -/
  resumes {p : PendingClose} {w' : World σ} : closeAsync r reason env w = .ok (.awaiting p) w' →
    ∀ (outcome : Completion) (env' : Env σ) (w'' : World σ), Merged reason outcome w'' (resume p outcome env' w'')

theorem closeAsync_refines_close (r : IteratorRecord) (reason : Completion) (env : Env σ) (w : World σ) :
    AsyncCloseLaw r reason env w := by
  constructor
  · intro await h
    exact closeAsyncWith_eq_close h
  · intro p w'
    rw [closeAsync_eq_awaiting, callReturn_eq_normal]
  · intro p w' h outcome env' w''
    obtain ⟨rfl, -⟩ := closeAsync_eq_awaiting.mp h
    exact mergeClose_merged p.reason outcome env' w''

/-- A close of the iterator above waits for what its `return` gave, and ends as a close at
    once if that is all it gets. -/
theorem a_close_that_waits_for_nothing :
    let env := (Env.ofHost idle ⟨8⟩ ⟨64, 64⟩).logged
    let call : Call := ⟨.host 0, .object closableRecord.iterator, []⟩
    closeAsync closableRecord (.normal .null) env (closableWorld []) =
      .ok (.awaiting ⟨.normal .null, .undefined⟩) (closableWorld [call]) ∧
    (closeAsyncWith (fun v => return .normal v) closableRecord (.normal .null) env (closableWorld [])).withoutHost =
      (close closableRecord (.normal .null) env (closableWorld [])).withoutHost := by
  intro env call
  have law := closeAsync_refines_close closableRecord (.normal .null) env (closableWorld [])
  have hr : callFunction (.object Realm.store.fresh) (.object closableRecord.iterator) [] env (closableWorld []) =
      .ok (.normal .undefined) (closableWorld [call]) := rfl
  exact ⟨law.waits_iff.mpr ⟨rfl, _, _, closable_lookup env [], by decide, hr⟩, law.agrees fun p w₁ _ => ⟨w₁.host, rfl⟩⟩

end Act

end EcmaObjects
