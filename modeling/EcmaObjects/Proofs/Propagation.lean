/-
  EcmaObjects.Proofs.Propagation — what operations fail with.

  A function may end in any way, also by a return, a break or a continue. An operation that
  calls it takes a return for a normal end, and propagates every other abrupt end
  unchanged, in the world that the function left. All other failures are errors raised
  by the operation itself. So a failure has one of two origins (`Env.Fails`), and each
  operation is shown to have no others (`Act.Orderly`), for functions that do anything.
  `failures_propagate` collects the operations that may fail: none fails with a normal
  completion, and none with a return.
-/

import EcmaObjects.Proofs.Refusal

namespace EcmaObjects

variable {σ α β : Type}

/-- What a failure may be: abrupt, and no return. -/
def Completion.Propagates : Completion → Prop
  | .normal _ | .abrupt (.returned _) => False
  | .abrupt (.thrown _) | .abrupt (.broken ..) | .abrupt (.continued ..) => True

/-! ## The origin of a failure -/

/-- Where an abrupt end and the world it leaves come from. -/
inductive Env.Fails (env : Env σ) : Abrupt → World σ → Prop
  | raised (cause : Cause) (w : World σ) : Fails env (.thrown (.object w.machine.store.fresh)) (w.withError cause)
  | called {b : Behavior} {this : Value} {args : List Value} {c : Abrupt} {w w' : World σ} :
      env.perform b this args w = .abrupt c w' → (∀ v, c ≠ .returned v) → Fails env c w'

theorem Env.Fails.propagates {env : Env σ} {c : Abrupt} {w : World σ} (h : env.Fails c w) :
    (Completion.abrupt c).Propagates := by
  cases h with
  | raised => trivial
  | called _ hn =>
    cases c with
    | returned v => exact absurd rfl (hn v)
    | thrown | broken | continued => trivial

/-- The action fails in these ways only. -/
def Act.Orderly (x : Act σ α) : Prop := ∀ env w c w', x env w = .abrupt c w' → env.Fails c w'

namespace Act.Orderly

/-! ## Making actions -/

theorem of_total {x : Act σ α} (h : ∀ env w, ∃ a w', x env w = .ok a w') : Orderly x := by
  intro env w c w' hx
  obtain ⟨a, w₁, ha⟩ := h env w
  rw [ha] at hx
  cases hx

theorem ret (a : α) : Orderly (pure a : Act σ α) := of_total fun _ w => ⟨a, w, rfl⟩

theorem bind {x : Act σ α} {f : α → Act σ β} (hx : Orderly x) (hf : ∀ a, Orderly (f a)) : Orderly (x >>= f) := by
  intro env w c w' h
  rw [bind_apply] at h
  cases hr : x env w with
  | ok a w₁ =>
    rw [hr] at h
    exact hf a env w₁ c w' h
  | abrupt c₁ w₁ =>
    rw [hr] at h
    cases h
    exact hx env w c w' hr
  | fault e w₁ =>
    rw [hr] at h
    cases h

theorem fail (f : Fault) : Orderly (fail f : Act σ α) := fun _ _ _ _ h => nomatch h

theorem store : Orderly (store : Act σ Store) := of_total fun _ w => ⟨_, w, rfl⟩

theorem maxDepth : Orderly (maxDepth : Act σ Nat) := of_total fun _ w => ⟨_, w, rfl⟩

theorem rounds : Orderly (rounds : Act σ Nat) := of_total fun _ w => ⟨_, w, rfl⟩

theorem create (obj : Object) : Orderly (create obj : Act σ ObjectId) := of_total fun _ _ => ⟨_, _, rfl⟩

theorem throwCause (cause : Cause) : Orderly (throwCause cause : Act σ α) := by
  intro env w c w' h
  rw [throwCause_apply] at h
  cases h
  exact .raised cause w

theorem call (f this : Value) (args : List Value) : Orderly (call f this args : Act σ Value) := by
  intro env w c w' h
  cases hb : behavior? w.machine.store f with
  | none =>
    rw [call_of_none hb] at h
    cases h
    exact .raised .notCallable w
  | some b =>
    rw [call_of_some hb] at h
    obtain ⟨hp, hn⟩ := Result.ofCall_eq_abrupt h
    exact .called hp hn

/-! ## One object and its chain -/

theorem isCallable (v : Value) : Orderly (isCallable v : Act σ Bool) := store.bind fun _ => ret _

theorem valueOf (d : Descriptor) (receiver : Value) : Orderly (valueOf d receiver : Act σ Value) := by
  unfold Act.valueOf
  split
  · split
    · exact ret _
    · exact call _ _ _
  · exact ret _

theorem get (o : ObjectId) (k : PropertyKey) (receiver : Value) : Orderly (get o k receiver : Act σ Value) := by
  refine store.bind fun s => maxDepth.bind fun n => ?_
  split
  · exact valueOf _ _
  · exact ret _
  · exact throwCause _

/-- A request for a change fails before anything has changed, or as the setter that it called. -/
theorem of_verdict {x : Act σ Bool} (h : ∀ env w, ∃ call, Verdict env w call (x env w)) : Orderly x := by
  intro env w c w' hx
  obtain ⟨call, verdict⟩ := h env w
  rw [hx] at verdict
  cases verdict with
  | failed cause => exact .raised cause w
  | calledFails hr =>
    obtain ⟨hp, hn⟩ := Result.ofCall_eq_abrupt hr
    exact .called hp hn

theorem set (o : ObjectId) (k : PropertyKey) (v receiver : Value) : Orderly (set o k v receiver : Act σ Bool) :=
  of_verdict fun env w => ⟨_, set_verdict env w o k v receiver⟩

theorem setProto (o : ObjectId) (p : Option ObjectId) : Orderly (setProto o p : Act σ Bool) :=
  of_verdict fun env w => ⟨none, setProto_verdict env w o p⟩

/-! ## Conversions -/

theorem toObject (v : Value) : Orderly (toObject v : Act σ ObjectId) := by
  unfold Act.toObject
  split
  · exact ret _
  · exact create _
  · exact throwCause _

theorem getV (v : Value) (k : PropertyKey) : Orderly (getV v k : Act σ Value) := (toObject v).bind fun o => get o k v

theorem getMethod (v : Value) (k : PropertyKey) : Orderly (getMethod v k : Act σ (Option Value)) := by
  refine (getV v k).bind fun f => ?_
  split
  · exact ret _
  · refine (isCallable f).bind fun c => ?_
    split
    · exact ret _
    · exact throwCause _

theorem invoke (v : Value) (k : PropertyKey) (args : List Value) : Orderly (invoke v k args : Act σ Value) :=
  (getV v k).bind fun f => call f v args

theorem firstPrimitive (o : ObjectId) (names : List PropertyKey) : Orderly (firstPrimitive o names : Act σ Value) := by
  induction names with
  | nil => exact throwCause _
  | cons name rest ih =>
    refine (get o name _).bind fun method => (isCallable method).bind fun c => ?_
    split
    · refine (call method _ _).bind fun result => ?_
      split
      · exact ih
      · exact ret _
    · exact ih

theorem toPrimitive (v : Value) (hint : Hint) : Orderly (toPrimitive v hint : Act σ Value) := by
  unfold Act.toPrimitive
  split
  · refine (getMethod _ _).bind fun found => ?_
    split
    · refine (call _ _ _).bind fun result => ?_
      split
      · exact throwCause _
      · exact ret _
    · exact firstPrimitive _ _
  · exact ret _

theorem toText (v : Value) : Orderly (toText v : Act σ Text) := by
  refine (toPrimitive v _).bind fun p => ?_
  split
  · exact ret _
  · exact throwCause _

theorem toPropertyKey (v : Value) : Orderly (toPropertyKey v : Act σ PropertyKey) := by
  refine (toPrimitive v _).bind fun p => ?_
  split
  · exact ret _
  · exact (toText _).bind fun _ => ret _

/-! ## Iterators -/

theorem resultDone (result : ObjectId) : Orderly (resultDone result : Act σ Bool) := (get _ _ _).bind fun _ => ret _

theorem resultValue (result : ObjectId) : Orderly (resultValue result : Act σ Value) := get _ _ _

theorem next (r : IteratorRecord) (arg : Option Value) : Orderly (next r arg : Act σ ObjectId) := by
  refine (call _ _ _).bind fun result => ?_
  split
  · exact ret _
  · exact throwCause _

theorem advance (r : IteratorRecord) : Orderly (advance r : Act σ (Option ObjectId)) :=
  (next r none).bind fun result => (resultDone result).bind fun _ => ret _

theorem advanceValue (r : IteratorRecord) : Orderly (advanceValue r : Act σ (Option Value)) := by
  refine (advance r).bind fun found => ?_
  split
  · exact (resultValue _).bind fun _ => ret _
  · exact ret _

/-- A step hands on how it ended beside the record; propagated, that is the search again. -/
theorem tracked (r : IteratorRecord) {x : Act σ (Option α)} (hx : Orderly x) :
    Orderly (do ofExcept (← Act.tracked r x).1 : Act σ (Option α)) := by
  intro env w c w' h
  simp only [Act.tracked, bind_apply, attempt_apply] at h
  cases hr : x env w with
  | ok a w₁ | fault e w₁ =>
    rw [hr] at h
    cases h
  | abrupt c₁ w₁ =>
    rw [hr] at h
    cases h
    exact hx env w c w' hr

theorem acquireWith (v method : Value) : Orderly (acquireWith v method : Act σ IteratorRecord) := by
  refine (call _ _ _).bind fun result => ?_
  split
  · exact (get _ _ _).bind fun _ => ret _
  · exact throwCause _

theorem acquire (v : Value) : Orderly (acquire v : Act σ IteratorRecord) := by
  refine (getMethod v _).bind fun found => ?_
  split
  · exact acquireWith _ _
  · exact throwCause _

theorem acquireAsync (n : Nat) (v : Value) : Orderly (acquireAsync n v : Act σ IteratorRecord) := by
  induction n using Nat.strongRecOn generalizing v with
  | ind n ih =>
    unfold Act.acquireAsync
    refine (getMethod v _).bind fun found => ?_
    split
    · exact acquireWith _ _
    · refine (getMethod v _).bind fun found => ?_
      split
      · exact throwCause _
      · refine (acquireWith _ _).bind fun sync => (create _).bind fun adapter => ?_
        split
        · exact fail _
        · exact ih _ (Nat.lt_succ_self _) _

theorem adapt (sync : IteratorRecord) : Orderly (adapt sync : Act σ IteratorRecord) :=
  (create _).bind fun _ => rounds.bind fun n => acquireAsync n _

theorem getIterator (v : Value) (hint : IterationHint) (method : Option Value) :
    Orderly (getIterator v hint method : Act σ IteratorRecord) := by
  unfold Act.getIterator
  split
  · exact acquireWith _ _
  · exact acquire _
  · exact rounds.bind fun n => acquireAsync n _

theorem drain (r : IteratorRecord) (n : Nat) (collected : List Value) :
    Orderly (drain r n collected : Act σ (List Value)) := by
  induction n generalizing collected with
  | zero => exact fail _
  | succ n ih =>
    rw [drain_step]
    refine (advanceValue r).bind fun found => ?_
    split
    · exact ih _
    · exact ret _

theorem iterableToList (v : Value) (method : Option Value) :
    Orderly (iterableToList v method : Act σ (List Value)) := by
  cases method with
  | none => exact (acquire v).bind fun r => rounds.bind fun n => drain r n []
  | some m => exact (acquireWith v m).bind fun r => rounds.bind fun n => drain r n []

end Act.Orderly

/-! ## The operations -/

/-- The operations that may fail. Those that also leave a record are taken with how they ended propagated. -/
inductive Act.Operation : {α : Type} → Act σ α → Prop
  | get (o : ObjectId) (k : PropertyKey) (receiver : Value) : Operation (get o k receiver)
  | set (o : ObjectId) (k : PropertyKey) (v receiver : Value) : Operation (set o k v receiver)
  | setProto (o : ObjectId) (proto : Option ObjectId) : Operation (setProto o proto)
  | call (f this : Value) (args : List Value) : Operation (call f this args)
  | getV (v : Value) (k : PropertyKey) : Operation (getV v k)
  | getMethod (v : Value) (k : PropertyKey) : Operation (getMethod v k)
  | invoke (v : Value) (k : PropertyKey) (args : List Value) : Operation (invoke v k args)
  | toObject (v : Value) : Operation (toObject v)
  | toPrimitive (v : Value) (hint : Hint) : Operation (toPrimitive v hint)
  | toText (v : Value) : Operation (toText v)
  | toPropertyKey (v : Value) : Operation (toPropertyKey v)
  | getIterator (v : Value) (hint : IterationHint) (method : Option Value) : Operation (getIterator v hint method)
  | adapt (sync : IteratorRecord) : Operation (adapt sync)
  | next (r : IteratorRecord) (arg : Option Value) : Operation (next r arg)
  | resultDone (result : ObjectId) : Operation (resultDone result)
  | resultValue (result : ObjectId) : Operation (resultValue result)
  | step (r : IteratorRecord) : Operation (do ofExcept (← step r).1)
  | stepValue (r : IteratorRecord) : Operation (do ofExcept (← stepValue r).1)
  | iterableToList (v : Value) (method : Option Value) : Operation (iterableToList v method)

theorem Act.Operation.orderly {x : Act σ α} (h : x.Operation) : x.Orderly := by
  cases h with
  | get => exact .get _ _ _
  | set => exact .set _ _ _ _
  | setProto => exact .setProto _ _
  | call => exact .call _ _ _
  | getV => exact .getV _ _
  | getMethod => exact .getMethod _ _
  | invoke => exact .invoke _ _ _
  | toObject => exact .toObject _
  | toPrimitive => exact .toPrimitive _ _
  | toText => exact .toText _
  | toPropertyKey => exact .toPropertyKey _
  | getIterator => exact .getIterator _ _ _
  | adapt => exact .adapt _
  | next => exact .next _ _
  | resultDone => exact .resultDone _
  | resultValue => exact .resultValue _
  | step r =>
    rw [step_eq_tracked]
    exact .tracked r (.advance r)
  | stepValue r =>
    rw [stepValue_eq_tracked]
    exact .tracked r (.advanceValue r)
  | iterableToList => exact .iterableToList _ _

/-- Whatever the functions do that an operation calls, it fails with a completion that may
    propagate: an error that it raised, or how a function ended, just as that left it. -/
theorem failures_propagate {x : Act σ α} (hx : x.Operation) (env : Env σ) (w : World σ) {c : Abrupt} {w' : World σ}
    (h : x env w = .abrupt c w') : (Completion.abrupt c).Propagates ∧ env.Fails c w' := by
  have fails : env.Fails c w' := hx.orderly env w c w' h
  exact ⟨fails.propagates, fails⟩

/-- A getter that ends with a break ends the reading of its property with that break. -/
theorem a_getter_breaks_out :
    let getter : Descriptor := { getter := some (.object ⟨25⟩), enumerable := some true, configurable := some true }
    let obj : Object := { function := some ⟨"", 0, .host 0⟩, properties := ⟨[("x", getter)]⟩ }
    let w : World Unit := ⟨{ store := Realm.store.add obj }, ()⟩
    let env : Env Unit := .ofHost (fun _ _ _ => .raise (.broken (some "out") none)) ⟨8⟩ ⟨64, 64⟩
    (Act.get ⟨25⟩ "x" .null : Act Unit Value).Operation ∧
      Act.get ⟨25⟩ "x" .null env w = .abrupt (.broken (some "out") none) w ∧
      (Completion.abrupt (.broken (some "out") none)).Propagates ∧ env.Fails (.broken (some "out") none) w := by
  intro getter obj w env
  have operation : (Act.get ⟨25⟩ "x" .null : Act Unit Value).Operation := .get _ _ _
  have broken : Act.get ⟨25⟩ "x" .null env w = .abrupt (.broken (some "out") none) w := rfl
  obtain ⟨propagates, fails⟩ := failures_propagate operation env w broken
  exact ⟨operation, broken, propagates, fails⟩

end EcmaObjects
