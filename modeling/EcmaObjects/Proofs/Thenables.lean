/-
  EcmaObjects.Proofs.Thenables — how far an await follows thenables.

  An await calls the `then` of what is awaited and goes on with what that settles to, as long as
  this is a thenable again. `Act.Chain` is a row of such thenables with all that they are asked
  for; each settles to the next. Only a thenable that settles to itself is noticed; all longer
  cycles are left to the limit on depth.
  - `thenable_law`: a chain within the limit comes to the value at its end, a longer one to a
    RangeError after one call of `then` more than the limit; within the limit, a rejection is the end,
    with its reason as it is, and so is a thenable that settles to itself. A cycle comes to the
    RangeError. There are never more calls of `then`, and an await ends if the calls that it makes do.
-/

import EcmaObjects.Proofs.Acquisition
import EcmaObjects.Proofs.Settlement

namespace EcmaObjects

variable {σ : Type}

theorem Value.strictEq_object_iff (u : Value) (o : ObjectId) : u.strictEq (.object o) = true ↔ u = .object o := by
  cases u with
  | object p =>
    show (p == o) = true ↔ _
    rw [beq_iff_eq, Value.object.injEq]
  | _ => exact ⟨nofun, nofun⟩

def Call.Returns (call : Call) (env : Env σ) : Prop := ∀ w e w', call.result env w ≠ .fault e w'

namespace Act

/-! ## One thenable -/

/-- The `then` of a value is looked up and called, and comes to this outcome: it is settled, or it
    throws instead. -/
inductive Answers (env : Env σ) (w : World σ) : Value → List Request → Completion → World σ → Prop
  | settles {o : ObjectId} {method : Value} {b : Behavior} {called outcome : Completion} {w₁ w₂ : World σ} :
      get o "then" (.object o) env w = .ok method w₁ → behavior? w₁.machine.store method = some b →
      callThen (.object o) method w₁ env w₁.opened = .ok called w₂ → w₂.decided? w₁.nextSettlement = some outcome →
      Answers env w (.object o) [w.machine.store.reading env.maxDepth o "then",
        .call ⟨b, .object o, [w₁.settler true, w₁.settler false]⟩] outcome w₂
  | throws {o : ObjectId} {method reason : Value} {b : Behavior} {w₁ w₂ : World σ} :
      get o "then" (.object o) env w = .ok method w₁ → behavior? w₁.machine.store method = some b →
      callThen (.object o) method w₁ env w₁.opened = .ok (.abrupt (.thrown reason)) w₂ →
      w₂.decided? w₁.nextSettlement = none →
      Answers env w (.object o) [w.machine.store.reading env.maxDepth o "then",
        .call ⟨b, .object o, [w₁.settler true, w₁.settler false]⟩] (.abrupt (.thrown reason)) w₂

/-- A value that is no object, or an object whose `then` is looked up and cannot be called. -/
inductive NotThenable (env : Env σ) (w : World σ) : Value → List Request → World σ → Prop
  | primitive {u : Value} : u.isObject = false → NotThenable env w u [] w
  | object {o : ObjectId} {f : Value} {w₁ : World σ} : get o "then" (.object o) env w = .ok f w₁ →
      w₁.machine.store.isCallable f = false →
      NotThenable env w (.object o) [w.machine.store.reading env.maxDepth o "then"] w₁

section
variable {env : Env σ} {v u : Value} {asked : List Request} {outcome : Completion} {w w₁ w₂ : World σ}

theorem settle_host (thenable method : Value) (env : Env σ) (w : World σ) :
    (settle thenable method env w).world.host = (callThen thenable method w env w.opened).world.host := by
  rw [settle_apply]
  cases callThen thenable method w env w.opened with
  | abrupt c w₁ | fault e w₁ => rfl
  | ok called w₁ => exact (conclude_ends _ called env w₁).1

theorem behavior?_opened_of_some {b : Behavior} {f : Value} (h : behavior? w.machine.store f = some b) :
    behavior? w.opened.machine.store f = some b :=
  Store.behavior?_add_of_some (Store.behavior?_add_of_some h _) _

theorem settle_shows {b : Behavior} {method : Value} (hb : behavior? w.machine.store method = some b) (thenable : Value)
    (env : Env σ) :
    env.Shows w (settle thenable method env w).world [.call ⟨b, thenable, [w.settler true, w.settler false]⟩] := by
  intro log hl
  rw [settle_host]
  exact callFunction_logs hl (behavior?_opened_of_some hb) thenable _

theorem Answers.settle (h : Answers env w v asked outcome w₂) : ∃ method w₁, v.isObject = true ∧
    getV v "then" env w = .ok method w₁ ∧ w₁.machine.store.isCallable method = true ∧
    Act.settle v method env w₁ = ofCompletion outcome env w₂ := by
  cases h with
  | @settles o method b called outcome w₁ w₂ hm hb hc hd | @throws o method reason b w₁ w₂ hm hb hc hd =>
    refine ⟨method, w₁, rfl, hm, isCallable_iff.mpr ⟨b, hb⟩, ?_⟩
    rw [settle_apply, hc]
    simp only [hd]
    rfl

theorem Answers.resolution (h : Answers env w v asked outcome w₁) (n : Nat) :
    resolution n v env w = match outcome with
      | .abrupt a => .abrupt a w₁
      | .normal u =>
        if u = v then throwCause .settledWithItself env w₁
        else match n with
          | 0 => throwCause .chainTooDeep env w₁
          | n + 1 => Act.resolution n u env w₁ := by
  obtain ⟨method, w₀, hv, hm, hc, hs⟩ := h.settle
  rw [resolution_apply, if_pos hv, hm]
  simp only [hc, if_true, hs]
  cases outcome with
  | abrupt a => rfl
  | normal u =>
    obtain ⟨o, rfl⟩ : ∃ o, v = .object o := by
      cases v with
      | object o => exact ⟨o, rfl⟩
      | _ => cases hv
    by_cases same : u = .object o
    · simp only [ofCompletion, pure_apply, Value.strictEq_object_iff, same, if_true]
    · cases n <;> simp only [ofCompletion, pure_apply, Value.strictEq_object_iff, same, if_false]

theorem Answers.shows (h : Answers env w v asked outcome w₂) : env.Shows w w₂ asked := by
  have called {o : ObjectId} {method : Value} {b : Behavior} {called : Completion} {w₁ : World σ}
      (hb : behavior? w₁.machine.store method = some b)
      (hc : callThen (.object o) method w₁ env w₁.opened = .ok called w₂) :
      env.Shows w₁ w₂ [.call ⟨b, .object o, [w₁.settler true, w₁.settler false]⟩] := by
    have shows := settle_shows hb (.object o) env
    intro log hl
    rw [← shows log hl, settle_host, hc]
    rfl
  cases h with
  | settles hm hb hc _ | throws hm hb hc _ => exact (Env.Shows.of_get hm).trans (called hb hc)

theorem Answers.one_call (h : Answers env w v asked outcome w₁) : asked.countP Request.isCall = 1 := by
  cases h <;> rfl

theorem NotThenable.resolution (h : NotThenable env w u asked w₁) (n : Nat) : resolution n u env w = .ok u w₁ := by
  cases h with
  | primitive hu =>
    rw [resolution_apply, hu]
    rfl
  | @object o f w₁ hf hc =>
    have looked : getV (.object o) "then" env w = .ok f w₁ := hf
    have object : (Value.object o).isObject = true := rfl
    rw [resolution_apply, if_pos object, looked]
    simp only [hc, Bool.false_eq_true, if_false]

theorem NotThenable.shows (h : NotThenable env w u asked w₁) : env.Shows w w₁ asked := by
  cases h with
  | primitive => exact .of_host rfl
  | object hf _ => exact .of_get hf

theorem NotThenable.no_call (h : NotThenable env w u asked w₁) : asked.countP Request.isCall = 0 := by
  cases h <;> rfl

end

/-! ## Chains -/

/-- `k` thenables, from the one that is awaited on, each of which settles to the next and the last to `u`. -/
inductive Chain (env : Env σ) : Nat → Value → World σ → List Request → Value → World σ → Prop
  | nil (v : Value) (w : World σ) : Chain env 0 v w [] v w
  | cons {k : Nat} {v next u : Value} {asked more : List Request} {w w₁ w₂ : World σ} :
      Answers env w v asked (.normal next) w₁ → next ≠ v → Chain env k next w₁ more u w₂ →
      Chain env (k + 1) v w (asked ++ more) u w₂

namespace Chain

variable {env : Env σ} {k : Nat} {v u : Value} {asked : List Request} {w w' : World σ}

theorem shows (h : Chain env k v w asked u w') : env.Shows w w' asked := by
  induction h with
  | nil => exact .of_host rfl
  | cons first _ _ ih => exact first.shows.trans ih

theorem calls (h : Chain env k v w asked u w') : asked.countP Request.isCall = k := by
  induction h with
  | nil => rfl
  | cons first _ _ ih => rw [List.countP_append, first.one_call, ih, Nat.add_comm]

theorem resolution (h : Chain env k v w asked u w') (n : Nat) :
    Act.resolution (k + n) v env w = Act.resolution n u env w' := by
  induction h with
  | nil => rw [Nat.zero_add]
  | @cons k v next u asked more w w₁ w₂ first distinct _ ih =>
    rw [Nat.succ_add, first.resolution]
    simp only [if_neg distinct]
    exact ih

/-- With a round too few, it gives up before the last thenable's value is looked at. -/
theorem tooLong (h : Chain env (k + 1) v w asked u w') :
    Act.resolution k v env w = throwCause .chainTooDeep env w' := by
  induction k generalizing v w asked with
  | zero =>
    obtain _ | ⟨first, distinct, rest⟩ := h
    cases rest
    rw [first.resolution]
    simp only [if_neg distinct]
  | succ k ih =>
    obtain _ | ⟨first, distinct, rest⟩ := h
    rw [first.resolution]
    simp only [if_neg distinct]
    exact ih rest

theorem take {j : Nat} (h : Chain env k v w asked u w') (hj : j ≤ k) :
    ∃ first u₁ w₁, first <+: asked ∧ Chain env j v w first u₁ w₁ := by
  induction h generalizing j with
  | nil v w =>
    obtain rfl := Nat.le_zero.mp hj
    exact ⟨[], v, w, List.prefix_refl _, .nil v w⟩
  | @cons k v next u asked more w w₁ w₂ head distinct _ ih =>
    cases j with
    | zero => exact ⟨[], v, w, List.nil_prefix, .nil v w⟩
    | succ j =>
      obtain ⟨first, u₁, w₃, before, chain⟩ := ih (Nat.le_of_succ_le_succ hj)
      exact ⟨asked ++ first, u₁, w₃, (List.prefix_append_right_inj _).mpr before, .cons head distinct chain⟩

/-- An await follows a chain that is too long for one thenable more than the limit. -/
theorem await_tooLong (h : Chain env k v w asked u w') (hk : env.maxDepth < k) :
    ∃ (first : List Request) (e : ObjectId) (w₂ w₃ : World σ), first <+: asked ∧ w₂.Raises .rangeError .chainTooDeep e w₃ ∧
      await v env w = .ok (.abrupt (.thrown (.object e))) w₃ ∧ env.Shows w w₃ first ∧
      first.countP Request.isCall = env.maxDepth + 1 := by
  obtain ⟨first, u₁, w₂, before, chain⟩ := h.take hk
  have raised := w₂.raises_withError .chainTooDeep
  refine ⟨first, _, w₂, _, before, raised, ?_, chain.shows.raises raised, chain.calls⟩
  rw [await_apply, chain.tooLong, throwCause_apply]

end Chain

theorem next_ne_self {n : Nat} (i : Fin (n + 2)) : i + 1 ≠ i := by
  intro same
  have value : (i.val + 1) % (n + 2) = i.val := by simpa [Fin.val_add] using congrArg Fin.val same
  rcases Nat.lt_or_ge (i.val + 1) (n + 2) with inside | last
  · rw [Nat.mod_eq_of_lt inside] at value
    omega
  · have turn : i.val + 1 = n + 2 := by omega
    rw [turn, Nat.mod_self] at value
    omega

/-- Round and round a cycle of two thenables or more, there are chains of any length. -/
theorem Chain.of_cycle {env : Env σ} {n : Nat} {t : Fin (n + 2) → ObjectId} {P : World σ → Prop}
    (distinct : Function.Injective t)
    (answers : ∀ i w, P w → ∃ asked w', Answers env w (.object (t i)) asked (.normal (.object (t (i + 1)))) w' ∧ P w')
    (k : Nat) (i : Fin (n + 2)) {w : World σ} (hw : P w) :
    ∃ asked u w', Chain env k (.object (t i)) w asked u w' := by
  induction k generalizing i w with
  | zero => exact ⟨[], _, w, .nil _ w⟩
  | succ k ih =>
    obtain ⟨asked, w₁, first, hw₁⟩ := answers i w hw
    obtain ⟨more, u, w', rest⟩ := ih (i + 1) hw₁
    -- Each settles to another one, so the check for settling to itself never ends the await.
    have moves : Value.object (t (i + 1)) ≠ .object (t i) := fun same => next_ne_self i (distinct (Value.object.inj same))
    exact ⟨asked ++ more, u, w', .cons first moves rest⟩

/-! ## Every await -/

/-- What was asked for on the way to a result: at most `limit` calls of `then`. It is broken off only
    if a call is that was made. -/
structure Accounts (env : Env σ) (w : World σ) (limit : Nat) (asked : List Request) {α : Type} (out : Result σ α) : Prop where
  shows : env.Shows w out.world asked
  calls : asked.countP Request.isCall ≤ limit
  thens : ∀ q ∈ asked, q.isCall = true ∨ q.reads "then" = true
  ends : (∀ c ∈ asked.filterMap Request.made?, c.Returns env) → ∀ e w', out ≠ .fault e w'

namespace Accounts

variable {env : Env σ} {α β : Type} {limit limit' : Nat} {asked more : List Request} {r : Result σ α} {out : Result σ β}
  {a : α} {w w₁ : World σ}

theorem mono (h : Accounts env w limit asked r) (hl : limit ≤ limit') : Accounts env w limit' asked r :=
  { h with calls := Nat.le_trans h.calls hl }

theorem fails (h : Accounts env w limit asked r) (hf : r.Fails out) : Accounts env w limit asked out where
  shows := by
    rw [hf.world]
    exact h.shows
  calls := h.calls
  thens := h.thens
  ends returns e w' broken := by
    cases hf with
    | abrupt => cases broken
    | fault hr => exact h.ends returns _ _ hr

theorem trans (h : Accounts env w limit asked (.ok a w₁ : Result σ α)) (h' : Accounts env w₁ limit' more out) :
    Accounts env w (limit + limit') (asked ++ more) out where
  shows := h.shows.trans h'.shows
  calls := by
    rw [List.countP_append]
    exact Nat.add_le_add h.calls h'.calls
  thens q hq := (List.mem_append.mp hq).elim (h.thens q) (h'.thens q)
  ends returns := h'.ends fun c hc => returns c (by
    rw [List.filterMap_append]
    exact List.mem_append_right _ hc)

theorem given (a : α) (env : Env σ) (w : World σ) : Accounts env w 0 [] (.ok a w : Result σ α) :=
  ⟨.of_host rfl, Nat.le_refl _, fun _ hq => (nomatch hq), fun _ _ _ h => by cases h⟩

theorem throwCause (c : Cause) (env : Env σ) (w : World σ) : Accounts env w 0 [] (throwCause c env w : Result σ α) :=
  ⟨.of_host rfl, Nat.le_refl _, fun _ hq => (nomatch hq), fun _ _ _ h => by cases h⟩

theorem lookUp (o : ObjectId) (env : Env σ) (w : World σ) :
    Accounts env w 0 [w.machine.store.reading env.maxDepth o "then"] (getV (.object o) "then" env w) where
  shows := .read o "then" (.object o) env w
  calls := Nat.le_refl _
  thens q hq := by
    obtain rfl := List.mem_singleton.mp hq
    exact Or.inr rfl
  ends returns e w' broken := by
    obtain ⟨c, hc, hr⟩ := get_eq_fault broken
    refine returns c ?_ _ _ _ hr
    simp [Store.reading, Request.made?, hc]

end Accounts

section
variable {b : Behavior} {method : Value} {w : World σ}

theorem settle_eq_fault (hb : behavior? w.machine.store method = some b) {thenable : Value} {env : Env σ} {e : Fault}
    {w' : World σ} (h : settle thenable method env w = .fault e w') :
    (Call.mk b thenable [w.settler true, w.settler false]).result env w.opened = .fault e w' := by
  have called : callThen thenable method w env w.opened = .fault e w' := by
    rw [settle_apply] at h
    cases hc : callThen thenable method w env w.opened with
    | abrupt c w₁ =>
      rw [hc] at h
      cases h
    | fault e w₁ =>
      rw [hc] at h
      cases h
      rfl
    | ok called w₁ =>
      rw [hc] at h
      exact absurd h ((conclude_ends _ called env w₁).2 e w')
  rw [callThen, callFunction_apply (behavior?_opened_of_some hb)] at called
  rw [Call.result]
  cases hp : env.perform b thenable [w.settler true, w.settler false] w.opened with
  | ok v w₁ | abrupt c w₁ =>
    rw [hp] at called
    cases called
  | fault e w₁ =>
    rw [hp] at called
    cases called
    rfl

theorem settle_accounts (hb : behavior? w.machine.store method = some b) (thenable : Value) (env : Env σ) :
    Accounts env w 1 [.call ⟨b, thenable, [w.settler true, w.settler false]⟩] (settle thenable method env w) where
  shows := settle_shows hb thenable env
  calls := Nat.le_refl _
  thens q hq := by
    obtain rfl := List.mem_singleton.mp hq
    exact Or.inl rfl
  ends returns e w' broken := by
    refine returns _ ?_ _ _ _ (settle_eq_fault hb broken)
    simp [Request.made?]

end

/-- By induction on the limit, with one round for each step. -/
theorem resolution_accounts (env : Env σ) (n : Nat) (v : Value) (w : World σ) :
    ∃ asked, Accounts env w (n + 1) asked (resolution n v env w) := by
  induction n using Nat.strongRecOn generalizing v w with
  | ind n ih =>
    cases v with
    | object o =>
      have object : (Value.object o).isObject = true := rfl
      have lookUp := Accounts.lookUp o env w
      rw [resolution_apply, if_pos object]
      cases hm : getV (.object o) "then" env w with
      | abrupt a w₁ => exact ⟨_, (lookUp.fails (.abrupt hm)).mono (Nat.zero_le _)⟩
      | fault e w₁ => exact ⟨_, (lookUp.fails (.fault hm)).mono (Nat.zero_le _)⟩
      | ok method w₁ =>
        rw [hm] at lookUp
        simp only
        cases hc : w₁.machine.store.isCallable method with
        | false => exact ⟨_, (lookUp.trans (.given _ env w₁)).mono (Nat.zero_le _)⟩
        | true =>
          obtain ⟨b, hb⟩ := isCallable_iff.mp hc
          have settles := settle_accounts hb (.object o) env
          rw [if_pos rfl]
          cases hs : settle (.object o) method env w₁ with
          | abrupt a w₂ => exact ⟨_, (lookUp.trans (settles.fails (.abrupt hs))).mono (by omega)⟩
          | fault e w₂ => exact ⟨_, (lookUp.trans (settles.fails (.fault hs))).mono (by omega)⟩
          | ok u w₂ =>
            rw [hs] at settles
            simp only
            split
            · exact ⟨_, ((lookUp.trans settles).trans (.throwCause _ env w₂)).mono (by omega)⟩
            -- The limit is looked at only here, once `then` has been called and has settled to something else.
            · cases n with
              | zero => exact ⟨_, ((lookUp.trans settles).trans (.throwCause _ env w₂)).mono (by omega)⟩
              | succ n =>
                obtain ⟨more, rest⟩ := ih n (Nat.lt_succ_self n) u w₂
                exact ⟨_, ((lookUp.trans settles).trans rest).mono (by omega)⟩
    | _ =>
      rw [resolution_apply]
      exact ⟨[], (Accounts.given _ env w).mono (Nat.zero_le _)⟩

/-! ## The law of awaiting thenables -/

/-- What an await of `v` comes to, by the thenables that it meets. -/
structure ThenableLaw (env : Env σ) (v : Value) (w : World σ) : Prop where
  value {k : Nat} {u : Value} {asked more : List Request} {w₁ w₂ : World σ} :
    Chain env k v w asked u w₁ → k ≤ env.maxDepth → NotThenable env w₁ u more w₂ →
    await v env w = .ok (.normal u) w₂ ∧ env.Shows w w₂ (asked ++ more) ∧ (asked ++ more).countP Request.isCall = k
  /-- A longer chain is followed for one thenable more than the limit. -/
  tooLong {k : Nat} {u : Value} {asked : List Request} {w₁ : World σ} :
    Chain env k v w asked u w₁ → env.maxDepth < k →
    ∃ (first : List Request) (e : ObjectId) (w₂ w₃ : World σ), first <+: asked ∧ w₂.Raises .rangeError .chainTooDeep e w₃ ∧
      await v env w = .ok (.abrupt (.thrown (.object e))) w₃ ∧ env.Shows w w₃ first ∧
      first.countP Request.isCall = env.maxDepth + 1
  /-- Nothing more is asked of anything, the reason included. -/
  rejects {k : Nat} {u reason : Value} {asked more : List Request} {w₁ w₂ : World σ} :
    Chain env k v w asked u w₁ → k ≤ env.maxDepth → Answers env w₁ u more (.abrupt (.thrown reason)) w₂ →
    await v env w = .ok (.abrupt (.thrown reason)) w₂ ∧ env.Shows w w₂ (asked ++ more)
  itself {k : Nat} {u : Value} {asked more : List Request} {w₁ w₂ : World σ} :
    Chain env k v w asked u w₁ → k ≤ env.maxDepth → Answers env w₁ u more (.normal u) w₂ →
    ∃ e w₃, w₂.Raises .typeError .settledWithItself e w₃ ∧ await v env w = .ok (.abrupt (.thrown (.object e))) w₃
  /-- Thenables that settle in a circle, whatever else changes as long as `P` holds. -/
  cycle {n : Nat} {t : Fin (n + 2) → ObjectId} {P : World σ → Prop} {i : Fin (n + 2)} : Function.Injective t →
    (∀ i w, P w → ∃ asked w', Answers env w (.object (t i)) asked (.normal (.object (t (i + 1)))) w' ∧ P w') →
    P w → v = .object (t i) →
    ∃ (e : ObjectId) (w₂ w₃ : World σ), w₂.Raises .rangeError .chainTooDeep e w₃ ∧
      await v env w = .ok (.abrupt (.thrown (.object e))) w₃
  /-- Whatever is met, there are no more calls of `then`, and if all calls come back the await ends. -/
  ends : ∃ asked, env.Shows w (await v env w).world asked ∧
    asked.countP Request.isCall ≤ env.maxDepth + 1 ∧
    (∀ q ∈ asked, q.isCall = true ∨ q.reads "then" = true) ∧
    ((∀ c ∈ asked.filterMap Request.made?, c.Returns env) → ∃ c w', await v env w = .ok c w')

/-- Chains of thenables are followed up to the limit on depth, and to nothing else. -/
theorem thenable_law (env : Env σ) (v : Value) (w : World σ) : ThenableLaw env v w := by
  have reached {k : Nat} {u : Value} {asked : List Request} {w₁ : World σ} (chain : Chain env k v w asked u w₁)
      (hk : k ≤ env.maxDepth) : resolution env.maxDepth v env w = resolution (env.maxDepth - k) u env w₁ := by
    rw [← chain.resolution, Nat.add_sub_cancel' hk]
  refine ⟨?_, fun chain hk => chain.await_tooLong hk, ?_, ?_, ?_, ?_⟩
  · intro k u asked more w₁ w₂ chain hk last
    refine ⟨?_, chain.shows.trans last.shows, ?_⟩
    · rw [await_apply, reached chain hk, last.resolution]
    · rw [List.countP_append, chain.calls, last.no_call, Nat.add_zero]
  · intro k u reason asked more w₁ w₂ chain hk last
    refine ⟨?_, chain.shows.trans last.shows⟩
    rw [await_apply, reached chain hk, last.resolution]
  · intro k u asked more w₁ w₂ chain hk last
    refine ⟨_, _, w₂.raises_withError .settledWithItself, ?_⟩
    rw [await_apply, reached chain hk, last.resolution]
    simp only [if_true, throwCause_apply]
  · rintro n t P i distinct answers hw rfl
    obtain ⟨asked, u, w₁, chain⟩ := Chain.of_cycle distinct answers (env.maxDepth + 1) i hw
    obtain ⟨first, e, w₂, w₃, -, raises, awaited, -⟩ := chain.await_tooLong (Nat.lt_succ_self _)
    exact ⟨e, w₂, w₃, raises, awaited⟩
  · obtain ⟨asked, accounts⟩ := resolution_accounts env env.maxDepth v w
    have same : (await v env w).world = (resolution env.maxDepth v env w).world := by
      rw [await_apply]
      cases resolution env.maxDepth v env w <;> rfl
    refine ⟨asked, same ▸ accounts.shows, accounts.calls, accounts.thens, fun returns => ?_⟩
    rw [await_apply]
    cases hr : resolution env.maxDepth v env w with
    | ok u w₁ => exact ⟨_, _, rfl⟩
    | abrupt a w₁ => exact ⟨_, _, rfl⟩
    | fault e w₁ => exact absurd hr (accounts.ends returns e w₁)

/-- Two thenables in a row, and null after them: with a limit of two an await comes to null, with a
    limit of one to a RangeError. -/
theorem a_chain_of_two_thenables :
    let host : Host Unit := fun code _ args =>
      call (args.head?.getD .undefined) .undefined [if code = 0 then .object ⟨28⟩ else .null]
    let thenable (method : ObjectId) : Object := { properties := ⟨[("then", .plain (.object method))]⟩ }
    let s := (Realm.store.add (.ofFunction ⟨"then", 2, .host 0⟩)).add (.ofFunction ⟨"then", 2, .host 1⟩)
    let w : World Unit := ⟨{ store := (s.add (thenable ⟨25⟩)).add (thenable ⟨26⟩) }, ()⟩
    let env (limit : Nat) : Env Unit := .ofHost host ⟨limit⟩ ⟨64, 64⟩
    (∃ w', await (.object ⟨27⟩) (env 2) w = .ok (.normal .null) w') ∧
      ∃ (e : ObjectId) (w₂ w₃ : World Unit), w₂.Raises .rangeError .chainTooDeep e w₃ ∧
        await (.object ⟨27⟩) (env 1) w = .ok (.abrupt (.thrown (.object e))) w₃ ∧
        w₃.machine.store.describe (.object e) = "RangeError: Maximum prototype chain depth exceeded" := by
  intro host thenable s w env
  have within : ∃ asked w', Chain (env 2) 2 (.object ⟨27⟩) w asked .null w' :=
    ⟨_, _, .cons (.settles rfl rfl rfl rfl) (by decide) (.cons (.settles rfl rfl rfl rfl) (by decide) (.nil _ _))⟩
  have beyond : ∃ asked w', Chain (env 1) 2 (.object ⟨27⟩) w asked .null w' :=
    ⟨_, _, .cons (.settles rfl rfl rfl rfl) (by decide) (.cons (.settles rfl rfl rfl rfl) (by decide) (.nil _ _))⟩
  obtain ⟨asked, w', chain⟩ := within
  obtain ⟨asked', w₁, longer⟩ := beyond
  obtain ⟨first, e, w₂, w₃, -, raises, awaited, -⟩ := (thenable_law (env 1) _ w).tooLong longer (by decide)
  refine ⟨⟨w', ((thenable_law (env 2) _ w).value chain (by decide) (.primitive rfl)).1⟩, e, w₂, w₃, raises, awaited, ?_⟩
  have run : await (.object ⟨27⟩) (env 1) w = .ok (.abrupt (.thrown (.object ⟨33⟩))) _ := rfl
  cases run.symm.trans awaited
  decide +kernel

end Act
end EcmaObjects
