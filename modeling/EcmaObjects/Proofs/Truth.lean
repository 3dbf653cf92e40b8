/-
  EcmaObjects.Proofs.Truth — which `done` ends an iteration.

  A step asks the result object for `done` and takes what it reads for a Boolean, whatever it
  is: for true unless it is falsy, and the BigInt zero for true as well.
  - `done_law`: so a step ends the iteration or hands on the very object that `next` gave, and
    an adapter says of itself that it is done or not, in each of its methods.
  - `a_zero_bigInt_ends_an_iteration`: the exception.
-/

import EcmaObjects.Proofs.Adapter

namespace EcmaObjects

variable {σ : Type}

/-! ## Steps -/

namespace Act

variable {env : Env σ} {w w₁ w₂ : World σ} {result : ObjectId} {d : Value}

theorem step_of_next {r : IteratorRecord} (hn : next r none env w = .ok result w₁)
    (hd : get result "done" (.object result) env w₁ = .ok d w₂) :
    step r env w =
      if d.toBoolean then .ok (.ok none, { r with done := true }) w₂ else .ok (.ok (some result), r) w₂ := by
  simp only [step, bind_apply, attempt_apply, hn, resultDone, hd, pure_apply]
  cases d.toBoolean <;> rfl

/-! ## Adapters -/

/-- A method of the adapter `a`, called with these arguments, has got an object from the sync
    iterator, in the world that comes last. -/
inductive AdapterGets (env : Env σ) (w : World σ) (a : ObjectId) (args : List Value) :
    Act σ Value → ObjectId → World σ → Prop
  | next {r : IteratorRecord} {result : ObjectId} {w₁ : World σ} :
      w.machine.store.iteration? a = some (.adapter r) → Act.next r args.head? env w = .ok result w₁ →
      AdapterGets env w a args (adapterNext (.object a) args) result w₁
  | returns {r : IteratorRecord} {f : Value} {result : ObjectId} {w₀ w₁ : World σ} :
      w.machine.store.iteration? a = some (.adapter r) →
      getMethod (.object r.iterator) "return" env w = .ok (some f) w₀ →
      call f (.object r.iterator) (args.take 1) env w₀ = .ok (.object result) w₁ →
      AdapterGets env w a args (adapterReturn (.object a) args) result w₁
  | throws {r : IteratorRecord} {f : Value} {result : ObjectId} {w₀ w₁ : World σ} :
      w.machine.store.iteration? a = some (.adapter r) →
      getMethod (.object r.iterator) "throw" env w = .ok (some f) w₀ →
      call f (.object r.iterator) (args.take 1) env w₀ = .ok (.object result) w₁ →
      AdapterGets env w a args (adapterThrow (.object a) args) result w₁

theorem AdapterGets.apply {a : ObjectId} {args : List Value} {x : Act σ Value}
    (h : AdapterGets env w a args x result w₁) : x env w = repack result env w₁ := by
  cases h with
  | next ha hn => simp only [adapterNext, bind_apply, wrappedRecord_apply ha, hn]
  | returns ha hm hc => simp only [adapterReturn, bind_apply, wrappedRecord_apply ha, hm, forward, hc]
  | throws ha hm hc => simp only [adapterThrow, bind_apply, wrappedRecord_apply ha, hm, forward, hc]

/-! ## The end of an iteration -/

/-- What is made of the `done` of `result`, where reading it in the world `w₁` gives `d`. -/
structure DoneLaw (env : Env σ) (result : ObjectId) (w₁ : World σ) (d : Value) (w₂ : World σ) : Prop where
  ends_iff {r : IteratorRecord} {w : World σ} : next r none env w = .ok result w₁ →
    ((∃ r' w', step r env w = .ok (.ok none, r') w') ↔ d.CountsAsTrue)
  ends {r : IteratorRecord} {w : World σ} : next r none env w = .ok result w₁ → d.CountsAsTrue →
    step r env w = .ok (.ok none, { r with done := true }) w₂
  goesOn {r : IteratorRecord} {w : World σ} : next r none env w = .ok result w₁ → ¬ d.CountsAsTrue →
    step r env w = .ok (.ok (some result), r) w₂
  adapter {a : ObjectId} {args : List Value} {x : Act σ Value} {w w₃ : World σ} {v : Value} :
    AdapterGets env w a args x result w₁ → get result "value" (.object result) env w₂ = .ok v w₃ →
    ∃ o w' done, x env w = .ok (.object o) w' ∧ w₃.FreshResult v done o w' ∧ (done = true ↔ d.CountsAsTrue)

/-- A step ends the iteration, and an adapter says that it is done, exactly if what is read of
    `done` is not falsy by the standard, or is the BigInt zero. -/
theorem done_law (hd : get result "done" (.object result) env w₁ = .ok d w₂) : DoneLaw env result w₁ d w₂ := by
  have truth := d.toBoolean_iff
  constructor
  · intro r w hn
    constructor
    · rintro ⟨r', w', ended⟩
      by_contra falsy
      rw [step_of_next hn hd, if_neg (mt truth.mp falsy)] at ended
      cases ended
    · intro counts
      exact ⟨_, _, (step_of_next hn hd).trans (if_pos (truth.mpr counts))⟩
  · intro r w hn counts
    rw [step_of_next hn hd, if_pos (truth.mpr counts)]
  · intro r w hn falsy
    rw [step_of_next hn hd, if_neg (mt truth.mp falsy)]
  · intro a args x w w₃ v gets hv
    exact ⟨_, _, d.toBoolean, gets.apply.trans (repack_apply hd hv), w₃.freshResult_add v d.toBoolean, truth⟩

/-- An iterator whose `next` gives the iterator itself, and an adapter over it: with the empty
    string for `done` neither comes to an end. -/
theorem an_empty_string_ends_nothing :
    let r : IteratorRecord := ⟨⟨26⟩, .object ⟨25⟩, false⟩
    let w : World Unit := ⟨{ store := ((Realm.store.add (.ofFunction ⟨"next", 0, .builtin .self⟩)).add
      { properties := ⟨[("done", .plain (.string ⟨[]⟩))]⟩ }).add (.ofAdapter r) }, ()⟩
    let env : Env Unit := .ofHost idle {} ⟨64, 64⟩
    get ⟨26⟩ "done" (.object ⟨26⟩) env w = .ok (.string ⟨[]⟩) w ∧
      step r env w = .ok (.ok (some ⟨26⟩), r) w ∧
      ∃ o w', adapterNext (.object ⟨27⟩) [] env w = .ok (.object o) w' ∧ w.FreshResult .undefined false o w' := by
  intro r w env
  have done : get ⟨26⟩ "done" (.object ⟨26⟩) env w = .ok (.string ⟨[]⟩) w := rfl
  have law : DoneLaw env ⟨26⟩ w (.string ⟨[]⟩) w := done_law done
  have falsy : ¬ (Value.string ⟨[]⟩).CountsAsTrue := fun counts => counts.elim (fun h => h .emptyString) nofun
  have given : next r none env w = .ok ⟨26⟩ w := rfl
  have value : get ⟨26⟩ "value" (.object ⟨26⟩) env w = .ok .undefined w := rfl
  have gets : AdapterGets env w ⟨27⟩ [] (adapterNext (.object ⟨27⟩) []) ⟨26⟩ w := .next rfl given
  obtain ⟨o, w', flag, gave, fresh, flag_iff⟩ := law.adapter gets value
  cases flag with
  | true => exact absurd (flag_iff.mp rfl) falsy
  | false => exact ⟨done, law.goesOn given falsy, o, w', gave, fresh⟩

/-- A BigInt zero for `done`, which is falsy, ends an iteration. -/
theorem a_zero_bigInt_ends_an_iteration :
    let session : Act Unit (Value × Except Abrupt (Option ObjectId)) := do
      let result ← create {}
      let _ ← createData result "done" (.bigInt 0)
      let f ← newFunction ⟨"next", 0, .builtin .self⟩
      let r : IteratorRecord := ⟨result, f, false⟩
      return (← get (← next r none) "done" (.object result), (← step r).1)
    ∃ w, session.run idle {} ⟨64, 64⟩ ⟨{}, ()⟩ = .ok (.bigInt 0, .ok none) w ∧ (Value.bigInt 0).Falsy :=
  ⟨_, rfl, .bigIntZero⟩

end Act

end EcmaObjects
