/-
  EcmaObjects.Proofs.Acquisition — how often the acquisition of an async iterator falls back.

  `Act.Acquires` is the acquisition with no bound: it counts the fallbacks to a sync
  method, and has no end where they never stop. The bound on rounds shows only there
  (`Acquires.acquireAsync`, `acquireAsync_exhausted`).
  An adapter has no properties of its own, so its async method is the one that it
  inherits (`Builds.find`); the acquisition falls back at most once exactly if the first
  adapter finds one (`async_acquisition_falls_back_once_iff`). Nothing makes sure that it
  does: where `%AsyncFromSyncIteratorPrototype%` has no async method but a sync one,
  each adapter is wrapped in another (`adapters_without_end`).
-/

import EcmaObjects.Proofs.Public
import EcmaObjects.Proofs.Reading

namespace EcmaObjects

variable {σ α β : Type} {R : Rules}

/-- A result that gives no value, taken for a result of another kind. -/
inductive Result.Fails (r : Result σ α) : Result σ β → Prop
  | abrupt {c : Abrupt} {w : World σ} : r = .abrupt c w → Fails r (.abrupt c w)
  | fault {e : Fault} {w : World σ} : r = .fault e w → Fails r (.fault e w)

theorem Result.Fails.world {r : Result σ α} {out : Result σ β} (h : r.Fails out) : out.world = r.world := by
  cases h with
  | abrupt h | fault h =>
    rw [h]
    rfl

theorem Result.not_fails_ok {a : α} {w : World σ} {out : Result σ β} : ¬ (Result.ok a w).Fails out := nofun

theorem Result.fails_abrupt_iff {c : Abrupt} {w : World σ} {out : Result σ β} :
    (Result.abrupt c w : Result σ α).Fails out ↔ out = .abrupt c w := by
  constructor
  · intro h
    cases h with
    | abrupt h =>
      cases h
      rfl
    | fault h => cases h
  · rintro rfl
    exact .abrupt rfl

theorem Result.fails_fault_iff {e : Fault} {w : World σ} {out : Result σ β} :
    (Result.fault e w : Result σ α).Fails out ↔ out = .fault e w := by
  constructor
  · intro h
    cases h with
    | abrupt h => cases h
    | fault h =>
      cases h
      rfl
  · rintro rfl
    exact .fault rfl

theorem Result.Fails.same {r out : Result σ α} (h : r.Fails out) : r = out := by
  cases h with
  | abrupt h | fault h => exact h

theorem Result.Fails.trans {γ : Type} {r : Result σ α} {out : Result σ β} {last : Result σ γ} (h : r.Fails out)
    (h' : out.Fails last) : r.Fails last := by
  cases h' with
  | abrupt h' =>
    subst h'
    cases h with
    | abrupt h => exact .abrupt h
  | fault h' =>
    subst h'
    cases h with
    | fault h => exact .fault h

namespace Act

theorem bind_fails {x : Act σ α} {f : α → Act σ β} {γ : Type} {env : Env σ} {w : World σ} {out : Result σ γ}
    (h : ((x >>= f) env w).Fails out) :
    (x env w).Fails out ∨ ∃ a w₁, x env w = .ok a w₁ ∧ (f a env w₁).Fails out := by
  rw [bind_apply] at h
  cases hx : x env w with
  | ok a w₁ =>
    rw [hx] at h
    exact Or.inr ⟨a, w₁, rfl, h⟩
  | abrupt c w₁ =>
    rw [hx] at h
    exact Or.inl (Result.fails_abrupt_iff.mpr (Result.fails_abrupt_iff.mp h))
  | fault e w₁ =>
    rw [hx] at h
    exact Or.inl (Result.fails_fault_iff.mpr (Result.fails_fault_iff.mp h))

/-! ## Actions without loops -/

/-- Actions that neither count rounds nor break off by themselves. -/
inductive Straight : {α : Type} → Act σ α → Prop
  | ret {α : Type} (a : α) : Straight (pure a : Act σ α)
  | bind {α β : Type} {x : Act σ α} {f : α → Act σ β} : Straight x → (∀ a, Straight (f a)) → Straight (x >>= f)
  | raise {α : Type} (c : Abrupt) : Straight (raise c : Act σ α)
  | attempt {α : Type} {x : Act σ α} : Straight x → Straight (attempt x)
  | maxDepth : Straight maxDepth
  | store : Straight store
  | perform (b : Behavior) (this : Value) (args : List Value) : Straight (perform b this args)
  | create (obj : Object) : Straight (create obj)

theorem Straight.any_rounds {x : Act σ α} (h : Straight x) (env : Env σ) (n : Nat) (w : World σ) :
    x { env with rounds := n } w = x env w := by
  induction h generalizing w with
  | ret | raise | maxDepth | store | perform | create => rfl
  | bind _ _ ihx ihf =>
    rw [bind_apply, bind_apply, ihx w]
    split
    · exact ihf _ _
    · rfl
    · rfl
  | attempt _ ih => rw [attempt_apply, attempt_apply, ih w]

theorem Straight.no_fault {x : Act σ α} (h : Straight x) {env : Env σ}
    (hp : ∀ b this args w e w', env.perform b this args w ≠ .fault e w') (w : World σ) (e : Fault) (w' : World σ) :
    x env w ≠ .fault e w' := by
  induction h generalizing w w' with
  | ret | raise | maxDepth | store | create => exact fun h => by cases h
  | perform b this args => exact hp b this args w e w'
  | @bind _ _ x f _ _ ihx ihf =>
    rw [bind_apply]
    cases hx : x env w with
    | ok a w₁ => exact ihf a w₁ w'
    | abrupt c w₁ => exact fun h => by cases h
    | fault e₁ w₁ => exact fun h => ihx w w₁ (by cases h; exact hx)
  | @attempt _ x _ ih =>
    rw [attempt_apply]
    cases hx : x env w with
    | ok a w₁ | abrupt c w₁ => exact fun h => by cases h
    | fault e₁ w₁ => exact fun h => ih w w₁ (by cases h; exact hx)

namespace Straight

theorem ofCompletion (c : Completion) : Straight (Act.ofCompletion c : Act σ Value) := by
  cases c with
  | normal v => exact .ret v
  | abrupt a => exact .raise a

theorem completion {x : Act σ Value} (h : Straight x) : Straight (completion x) := .bind (.attempt h) fun _ => .ret _

theorem throwCause (c : Cause) : Straight (throwCause c : Act σ α) :=
  .bind (.bind (.create _) fun _ => .ret _) fun _ => .raise _

theorem call (f this : Value) (args : List Value) : Straight (call f this args : Act σ Value) := by
  refine .bind (.bind .store fun s => ?_) ofCompletion
  split
  · exact completion (throwCause _)
  · exact .bind (completion (.perform _ _ _)) fun _ => .ret _

theorem get (o : ObjectId) (k : PropertyKey) (receiver : Value) : Straight (get o k receiver : Act σ Value) := by
  refine .bind .store fun s => .bind .maxDepth fun n => ?_
  split
  · unfold valueOf
    split
    · split
      · exact .ret _
      · exact call _ _ _
    · exact .ret _
  · exact .ret _
  · exact throwCause _

theorem getMethod (v : Value) (k : PropertyKey) : Straight (getMethod v k : Act σ (Option Value)) := by
  have object : Straight (toObject v : Act σ ObjectId) := by
    unfold toObject
    split
    · exact .ret _
    · exact .create _
    · exact throwCause _
  refine .bind (.bind object fun o => get o k v) fun f => ?_
  split
  · exact .ret _
  · refine .bind (.bind .store fun _ => .ret _) fun c => ?_
    split
    · exact .ret _
    · exact throwCause _

theorem acquireWith (v method : Value) : Straight (acquireWith v method : Act σ IteratorRecord) := by
  refine .bind (call _ _ _) fun result => ?_
  split
  · exact .bind (get _ _ _) fun _ => .ret _
  · exact throwCause _

end Straight

/-! ## One round -/

def fallBack (v : Value) : Act σ ObjectId := do
  match ← getMethod v WellKnown.iterator with
  | none => throwCause .notAsyncIterable
  | some method => newAdapter (← acquireWith v method)

theorem Straight.fallBack (v : Value) : Straight (fallBack v : Act σ ObjectId) := by
  refine .bind (.getMethod v _) fun found => ?_
  split
  · exact .throwCause _
  · exact .bind (.acquireWith v _) fun _ => .create _

theorem acquireAsync_apply (n : Nat) (v : Value) (env : Env σ) (w : World σ) :
    acquireAsync n v env w = match getMethod v WellKnown.asyncIterator env w with
      | .ok (some method) w₁ => acquireWith v method env w₁
      | .ok none w₁ =>
        match fallBack v env w₁ with
        | .ok adapter w₂ =>
          match n with
          | 0 => .fault .exhausted w₂
          | n + 1 => acquireAsync n (.object adapter) env w₂
        | .abrupt c w₂ => .abrupt c w₂
        | .fault e w₂ => .fault e w₂
      | .abrupt c w₁ => .abrupt c w₁
      | .fault e w₁ => .fault e w₁ := by
  conv =>
    lhs
    unfold acquireAsync
  simp only [bind_apply]
  cases getMethod v WellKnown.asyncIterator env w with
  | abrupt c w₁ | fault e w₁ => rfl
  | ok found w₁ =>
    cases found with
    | some method => rfl
    | none =>
      simp only [fallBack, bind_apply]
      cases getMethod v WellKnown.iterator env w₁ with
      | abrupt c w₂ | fault e w₂ => rfl
      | ok found w₂ =>
        cases found with
        | none => rfl
        | some method =>
          simp only [bind_apply]
          cases acquireWith v method env w₂ with
          | abrupt c w₃ | fault e w₃ => rfl
          | ok sync w₃ => cases n <;> rfl

/-- The first fallback for `v` gives the adapter `o`. -/
def Builds (env : Env σ) (v : Value) (w : World σ) (o : ObjectId) (w' : World σ) : Prop :=
  ∃ w₁, getMethod v WellKnown.asyncIterator env w = .ok none w₁ ∧ fallBack v env w₁ = .ok o w'

/-! ## The acquisition with no bound -/

/-- The acquisition ends with `out` after `k` fallbacks to a sync method. -/
inductive Acquires (env : Env σ) : Nat → Value → World σ → Result σ IteratorRecord → Prop
  | direct {v method : Value} {w w₁ : World σ} :
      getMethod v WellKnown.asyncIterator env w = .ok (some method) w₁ → Acquires env 0 v w (acquireWith v method env w₁)
  | noMethod {v : Value} {w : World σ} {out : Result σ IteratorRecord} :
      (getMethod v WellKnown.asyncIterator env w).Fails out → Acquires env 0 v w out
  | noAdapter {v : Value} {w w₁ : World σ} {out : Result σ IteratorRecord} :
      getMethod v WellKnown.asyncIterator env w = .ok none w₁ → (fallBack v env w₁).Fails out → Acquires env 1 v w out
  | adapter {k : Nat} {v : Value} {w w' : World σ} {o : ObjectId} {out : Result σ IteratorRecord} :
      Builds env v w o w' → Acquires env k (.object o) w' out → Acquires env (k + 1) v w out

theorem Acquires.acquireAsync {env : Env σ} {k : Nat} {v : Value} {w : World σ} {out : Result σ IteratorRecord}
    (h : Acquires env k v w out) {n : Nat} (hn : k ≤ n) : acquireAsync n v env w = out := by
  induction h generalizing n with
  | direct hm => rw [acquireAsync_apply, hm]
  | noMethod hf =>
    rw [acquireAsync_apply]
    cases hf with
    | abrupt hm | fault hm => rw [hm]
  | noAdapter hm hf =>
    rw [acquireAsync_apply, hm]
    cases hf with
    | abrupt ho | fault ho => simp only [ho]
  | adapter hb _ ih =>
    obtain ⟨w₁, hm, ho⟩ := hb
    obtain ⟨n, rfl⟩ : ∃ m, n = m + 1 := ⟨n - 1, by omega⟩
    rw [acquireAsync_apply, hm]
    simp only [ho]
    exact ih (by omega)

/-- Where the acquisition has no end, it uses up any number of rounds. -/
theorem acquireAsync_exhausted {env : Env σ} {v : Value} {w : World σ} (h : ∀ k out, ¬ Acquires env k v w out) (n : Nat) :
    ∃ w', acquireAsync n v env w = .fault .exhausted w' := by
  induction n using Nat.strongRecOn generalizing v w with
  | ind n ih =>
    rw [acquireAsync_apply]
    cases hm : getMethod v WellKnown.asyncIterator env w with
    | abrupt c w₁ => exact absurd (.noMethod (.abrupt hm)) (h 0 _)
    | fault e w₁ => exact absurd (.noMethod (.fault hm)) (h 0 _)
    | ok found w₁ =>
      cases found with
      | some method => exact absurd (.direct hm) (h 0 _)
      | none =>
        cases ho : fallBack v env w₁ with
        | abrupt c w₂ => exact absurd (.noAdapter hm (.abrupt ho)) (h 1 _)
        | fault e w₂ => exact absurd (.noAdapter hm (.fault ho)) (h 1 _)
        | ok o w₂ =>
          simp only [ho]
          cases n with
          | zero => exact ⟨w₂, rfl⟩
          | succ n => exact ih n (Nat.lt_succ_self n) fun k out hk => h (k + 1) out (.adapter ⟨w₁, hm, ho⟩ hk)

theorem acquireAsync_any_rounds (n m : Nat) (v : Value) (env : Env σ) (w : World σ) :
    acquireAsync n v { env with rounds := m } w = acquireAsync n v env w := by
  induction n using Nat.strongRecOn generalizing v w with
  | ind n ih =>
    rw [acquireAsync_apply, acquireAsync_apply, (Straight.getMethod _ _).any_rounds]
    split
    · exact (Straight.acquireWith _ _).any_rounds _ _ _
    · rw [(Straight.fallBack v).any_rounds]
      split
      · cases n with
        | zero => rfl
        | succ n => exact ih n (Nat.lt_succ_self n) _ _
      · rfl
      · rfl
    · rfl
    · rfl

theorem getIterator_async (v : Value) (n : Nat) (env : Env σ) (w : World σ) :
    getIterator v .async none { env with rounds := n } w = acquireAsync n v env w :=
  acquireAsync_any_rounds n n v env w

theorem Acquires.no_fault {env : Env σ} (hp : ∀ b this args w e w', env.perform b this args w ≠ .fault e w') {k : Nat}
    {v : Value} {w : World σ} {out : Result σ IteratorRecord} (h : Acquires env k v w out) (e : Fault) (w' : World σ) :
    out ≠ .fault e w' := by
  induction h with
  | direct => exact (Straight.acquireWith _ _).no_fault hp _ e w'
  | noMethod hf =>
    cases hf with
    | abrupt => exact fun h => by cases h
    | fault hm => exact absurd hm ((Straight.getMethod _ _).no_fault hp _ _ _)
  | noAdapter _ hf =>
    cases hf with
    | abrupt => exact fun h => by cases h
    | fault ho => exact absurd ho ((Straight.fallBack _).no_fault hp _ _ _)
  | adapter _ _ ih => exact ih

theorem acquires_zero_iff {env : Env σ} {v : Value} {w : World σ} :
    (∃ out, Acquires env 0 v w out) ↔ ∀ w₁, getMethod v WellKnown.asyncIterator env w ≠ .ok none w₁ := by
  constructor
  · rintro ⟨out, h⟩ w₁ hn
    cases h with
    | direct hm => cases hn.symm.trans hm
    | noMethod hf =>
      cases hf with
      | abrupt hm | fault hm => cases hn.symm.trans hm
  · intro h
    cases hm : getMethod v WellKnown.asyncIterator env w with
    | abrupt c w₁ => exact ⟨_, .noMethod (.abrupt hm)⟩
    | fault e w₁ => exact ⟨_, .noMethod (.fault hm)⟩
    | ok found w₁ =>
      cases found with
      | none => exact absurd hm (h w₁)
      | some method => exact ⟨_, .direct hm⟩

theorem Acquires.of_builds {env : Env σ} {k : Nat} {v : Value} {w w' : World σ} {o : ObjectId}
    {out : Result σ IteratorRecord} (h : Acquires env k v w out) (hb : Builds env v w o w') :
    ∃ n, k = n + 1 ∧ Acquires env n (.object o) w' out := by
  obtain ⟨w₁, hm, ho⟩ := hb
  cases h with
  | direct hm' => cases hm.symm.trans hm'
  | noMethod hf =>
    cases hf with
    | abrupt hm' | fault hm' => cases hm.symm.trans hm'
  | noAdapter hm' hf =>
    cases hm.symm.trans hm'
    cases hf with
    | abrupt ho' | fault ho' => cases ho.symm.trans ho'
  | adapter hb' h =>
    obtain ⟨w₂, hm', ho'⟩ := hb'
    cases hm.symm.trans hm'
    cases ho.symm.trans ho'
    exact ⟨_, rfl, h⟩

/-- The acquisition falls back at most once exactly if no adapter has to fall back. -/
theorem acquires_once_iff {env : Env σ} {v : Value} {w : World σ} :
    (∃ k out, k ≤ 1 ∧ Acquires env k v w out) ↔
      ∀ o w', Builds env v w o w' → ∀ w₁, getMethod (.object o) WellKnown.asyncIterator env w' ≠ .ok none w₁ := by
  constructor
  · rintro ⟨k, out, hk, h⟩ o w' hb
    obtain ⟨n, rfl, h'⟩ := h.of_builds hb
    obtain rfl : n = 0 := by omega
    exact acquires_zero_iff.mp ⟨out, h'⟩
  · intro h
    by_cases hn : ∀ w₁, getMethod v WellKnown.asyncIterator env w ≠ .ok none w₁
    · obtain ⟨out, h₀⟩ := acquires_zero_iff.mpr hn
      exact ⟨0, out, Nat.zero_le 1, h₀⟩
    · obtain ⟨w₁, hm⟩ := Classical.not_forall_not.mp hn
      cases ho : fallBack v env w₁ with
      | abrupt c w₂ => exact ⟨1, _, Nat.le_refl 1, .noAdapter hm (.abrupt ho)⟩
      | fault e w₂ => exact ⟨1, _, Nat.le_refl 1, .noAdapter hm (.fault ho)⟩
      | ok o w₂ =>
        obtain ⟨out, h₀⟩ := acquires_zero_iff.mpr (h o w₂ ⟨w₁, hm, ho⟩)
        exact ⟨1, out, Nat.le_refl 1, .adapter ⟨w₁, hm, ho⟩ h₀⟩

/-! ## Adapters -/

/-- An adapter is a new object below the prototype of adapters, with no properties of its own. -/
theorem Builds.adapter {env : Env σ} {v : Value} {w w' : World σ} {o : ObjectId} (h : Builds env v w o w') :
    ∃ sync, w'.machine.store.get? o =
      some { proto := some Intrinsic.asyncFromSyncIteratorPrototype.object, iteration := some (.adapter sync) } := by
  obtain ⟨w₁, -, ho⟩ := h
  obtain ⟨found, w₂, -, hrest⟩ := bind_eq_ok ho
  cases found with
  | none => cases hrest
  | some method =>
    obtain ⟨sync, w₃, -, hc⟩ := bind_eq_ok hrest
    cases hc
    exact ⟨sync, Store.get?_add_linked rfl _⟩

/-- So a look-up from an adapter is one from the prototype of adapters, a link further up. -/
theorem Builds.find {env : Env σ} {v : Value} {w w' : World σ} {o : ObjectId} (h : Builds env v w o w') (k : PropertyKey)
    (limit : Nat) :
    w'.machine.store.find k limit o = match limit with
      | 0 => .tooDeep
      | n + 1 => w'.machine.store.find k n Intrinsic.asyncFromSyncIteratorPrototype.object := by
  obtain ⟨sync, hg⟩ := h.adapter
  have hk : w'.machine.store.own? o k = none := by rw [Store.own?, hg]; rfl
  have hp : w'.machine.store.protoOf o = some Intrinsic.asyncFromSyncIteratorPrototype.object := by
    rw [Store.protoOf, hg]; rfl
  conv =>
    lhs
    unfold Store.find
  cases limit <;> simp only [hk, hp]

theorem getMethod_eq_none {o : ObjectId} {k : PropertyKey} {env : Env σ} {w w' : World σ} :
    getMethod (.object o) k env w = .ok none w' ↔ ∃ f, get o k (.object o) env w = .ok f w' ∧ f.isNullish = true := by
  have hv : getV (.object o) k env w = get o k (.object o) env w := rfl
  rw [getMethod_apply, hv]
  constructor
  · intro h
    cases hg : get o k (.object o) env w with
    | abrupt c w₁ | fault e w₁ => rw [hg] at h; cases h
    | ok f w₁ =>
      simp only [hg] at h
      split at h
      · rename_i hn
        cases h
        exact ⟨f, rfl, hn⟩
      · split at h <;> cases h
  · rintro ⟨f, hf, hn⟩
    simp only [hf, hn, if_true]

/-! ## What an acquisition comes to -/

/-- What the acquisition of an async iterator for `v` does. -/
structure AcquisitionLaw (env : Env σ) (v : Value) (w : World σ) : Prop where
  /-- Where it ends, it does so under every bound on rounds that is not below the number of fallbacks. -/
  ends : ∀ k out, Acquires env k v w out → ∀ n, k ≤ n →
    getIterator v .async none { env with rounds := n } w = out
  /-- Where it does not, it gives up under every bound. -/
  endless : (∀ k out, ¬ Acquires env k v w out) → ∀ n, ∃ w',
    getIterator v .async none { env with rounds := n } w = .fault .exhausted w'
  /-- It ends with an iterator or an exception, if the code that it calls does. -/
  returns : (∀ b this args w e w', env.perform b this args w ≠ .fault e w') →
    ∀ k out, Acquires env k v w out → ∀ e w', out ≠ .fault e w'
  /-- An adapter has what the prototype of adapters has. -/
  inherits : ∀ o w', Builds env v w o w' → ∀ k, w'.machine.store.find k env.maxDepth o = match env.maxDepth with
    | 0 => .tooDeep
    | n + 1 => w'.machine.store.find k n Intrinsic.asyncFromSyncIteratorPrototype.object
  /-- It falls back at most once exactly if the first adapter does not read its async method as undefined or null. -/
  once : (∃ k out, k ≤ 1 ∧ Acquires env k v w out) ↔ ∀ o w', Builds env v w o w' →
    ∀ f w'', get o WellKnown.asyncIterator (.object o) env w' = .ok f w'' → f.isNullish = false

/-- The acquisition of an async iterator ends with at most one fallback exactly if the
    first adapter, which has the async method of its prototype, does have one. -/
theorem async_acquisition_falls_back_once_iff (env : Env σ) (v : Value) (w : World σ) : AcquisitionLaw env v w where
  ends k out h n hn := by
    rw [getIterator_async]
    exact h.acquireAsync hn
  endless h n := by
    rw [getIterator_async]
    exact acquireAsync_exhausted h n
  returns hp k out h := h.no_fault hp
  inherits o w' hb k := hb.find k env.maxDepth
  once := by
    rw [acquires_once_iff]
    refine forall₃_congr fun o w' hb => ⟨fun h f w'' hf => ?_, fun h w'' hn => ?_⟩
    · rw [← Bool.not_eq_true]
      exact fun hn => h w'' (getMethod_eq_none.mpr ⟨f, hf, hn⟩)
    · obtain ⟨f, hf, hnull⟩ := getMethod_eq_none.mp hn
      rw [h f w'' hf] at hnull
      cases hnull

/-- An iterator with no async method is acquired behind one adapter. -/
theorem an_iterator_behind_an_adapter :
    let env : Env Unit := .ofHost idle ⟨8⟩ ⟨64, 64⟩
    let w : World Unit := ⟨{}, ()⟩
    let v : Value := .object Intrinsic.iteratorPrototype.object
    AcquisitionLaw env v w ∧ ∃ out, Acquires env 1 v w out := by
  intro env w v
  exact ⟨async_acquisition_falls_back_once_iff env v w, _, .adapter ⟨_, rfl, rfl⟩ (.direct rfl)⟩

end Act

/-! ## Adapters without end -/

namespace Store

variable {s : Store}

/-- An object has nothing of its own, and where adapters inherit from there is no async
    method, but a sync one that gives its receiver. -/
structure Circular (s : Store) (o : ObjectId) : Prop where
  bare : ∃ iteration, s.get? o = some { proto := some Intrinsic.asyncFromSyncIteratorPrototype.object, iteration }
  noAsync : s.own? Intrinsic.asyncFromSyncIteratorPrototype.object WellKnown.asyncIterator = some (.plain .null)
  sync : s.own? Intrinsic.asyncFromSyncIteratorPrototype.object WellKnown.iterator = some (.plain (.object ⟨18⟩))
  next : ∃ v, s.own? Intrinsic.asyncFromSyncIteratorPrototype.object "next" = some (.builtin v)
  self : Act.behavior? s (.object ⟨18⟩) = some (.builtin .self)

theorem Circular.add {o : ObjectId} (h : s.Circular o) (sync : IteratorRecord) :
    (s.add { proto := some Intrinsic.asyncFromSyncIteratorPrototype.object, iteration := some (.adapter sync) }).Circular
      s.fresh where
  bare := ⟨some (.adapter sync), get?_add_linked rfl s⟩
  noAsync := own?_add_of_some h.noAsync _
  sync := own?_add_of_some h.sync _
  next := by
    obtain ⟨v, hv⟩ := h.next
    exact ⟨v, own?_add_of_some hv _⟩
  self := behavior?_add_of_some h.self _

end Store

namespace Act

theorem get_inherited {env : Env σ} {w : World σ} {o p : ObjectId} {k : PropertyKey} {d : Descriptor}
    (hk : w.machine.store.own? o k = none) (hp : w.machine.store.protoOf o = some p)
    (hd : w.machine.store.own? p k = some d) (ha : d.isAccessor = false) (hl : 0 < env.maxDepth) (receiver : Value) :
    get o k receiver env w = .ok (d.value.getD .undefined) w := by
  obtain ⟨n, hn⟩ : ∃ n, env.maxDepth = n + 1 := ⟨env.maxDepth - 1, by omega⟩
  refine get_of_found ?_ ha receiver
  rw [hn, Store.find_of_proto hk hp, Store.find_of_own hd]

theorem builds_of_circular {env : Env σ} (hl : 0 < env.maxDepth)
    (hself : ∀ this args (w : World σ), env.perform (.builtin .self) this args w = .ok this w) {w : World σ}
    {o : ObjectId} (h : w.machine.store.Circular o) :
    ∃ o' w', Builds env (.object o) w o' w' ∧ w'.machine.store.Circular o' := by
  obtain ⟨iteration, hg⟩ := h.bare
  obtain ⟨next, hnext⟩ := h.next
  have inherited {k : PropertyKey} {d : Descriptor} (ha : d.isAccessor = false)
      (hd : w.machine.store.own? Intrinsic.asyncFromSyncIteratorPrototype.object k = some d) :
      get o k (.object o) env w = .ok (d.value.getD .undefined) w := by
    have hk : w.machine.store.own? o k = none := by rw [Store.own?, hg]; rfl
    have hp : w.machine.store.protoOf o = some Intrinsic.asyncFromSyncIteratorPrototype.object := by
      rw [Store.protoOf, hg]; rfl
    exact get_inherited hk hp hd ha hl _
  have noAsync : getMethod (.object o) WellKnown.asyncIterator env w = .ok none w :=
    getMethod_eq_none.mpr ⟨_, inherited rfl h.noAsync, rfl⟩
  have hsync : getV (.object o) WellKnown.iterator env w = .ok (.object ⟨18⟩) w := inherited rfl h.sync
  have sync : getMethod (.object o) WellKnown.iterator env w = .ok (some (.object ⟨18⟩)) w := by
    have hc : w.machine.store.isCallable (.object ⟨18⟩) = true := isCallable_iff.mpr ⟨_, h.self⟩
    simp only [getMethod_apply, hsync, Value.isNullish, hc, Bool.false_eq_true, if_false, if_true]
  have record : acquireWith (.object o) (.object ⟨18⟩) env w = .ok { iterator := o, next } w := by
    simp only [acquireWith, call, bind_apply, callFunction_apply h.self, hself, ofCompletion, pure_apply,
      inherited rfl hnext]
    rfl
  refine ⟨w.machine.store.fresh, w.add _, ⟨w, noAsync, ?_⟩, h.add { iterator := o, next }⟩
  simp only [fallBack, bind_apply, sync, record, newAdapter, create_apply]

theorem not_acquires_of_circular {env : Env σ} (hl : 0 < env.maxDepth)
    (hself : ∀ this args (w : World σ), env.perform (.builtin .self) this args w = .ok this w) {w : World σ}
    {o : ObjectId} (hc : w.machine.store.Circular o) (k : Nat) (out : Result σ IteratorRecord) :
    ¬ Acquires env k (.object o) w out := by
  intro h
  induction k generalizing w o with
  | zero =>
    obtain ⟨o', w', hb, -⟩ := builds_of_circular hl hself hc
    obtain ⟨n, hn, -⟩ := h.of_builds hb
    cases hn
  | succ k ih =>
    obtain ⟨o', w', hb, hc'⟩ := builds_of_circular hl hself hc
    obtain ⟨n, hn, h'⟩ := h.of_builds hb
    cases hn
    exact ih hc' h'

end Act

/-- The first machine, in which adapters inherit no async method and a sync one that gives
    its receiver; and one object more, which inherits what adapters do. -/
def Machine.circular : Machine :=
  let adapters := Intrinsic.asyncFromSyncIteratorPrototype.object
  { store := ((Realm.store.modify adapters (·.insert WellKnown.asyncIterator (.plain .null))).modify adapters
      (·.insert WellKnown.iterator (.plain (.object ⟨18⟩)))).add { proto := some adapters } }

theorem Machine.circular_reachable : Machine.circular.Reachable R := by
  let adapters := Intrinsic.asyncFromSyncIteratorPrototype.object
  let s := Realm.store.modify adapters (·.insert WellKnown.asyncIterator (.plain .null))
  have noAsync : Realm.store.define? adapters WellKnown.asyncIterator (.plain .null) = some s :=
    Store.define?_new rfl rfl
  have sync : s.define? adapters WellKnown.iterator (.plain (.object ⟨18⟩)) =
      some (s.modify adapters (·.insert WellKnown.iterator (.plain (.object ⟨18⟩)))) := Store.define?_new rfl rfl
  have first : Machine.Run R {} { store := s } := .single (.define {} (.inr rfl) noAsync)
  exact (first.tail (.define _ (.inr rfl) sync)).tail (.create _ (.plain _ none rfl))

/-- Where adapters inherit no async method, but a sync one that gives its receiver, each is
    wrapped in another: the acquisition gives up under every bound on rounds. -/
theorem adapters_without_end :
    let env : Env Unit := .ofHost idle ⟨8⟩ ⟨64, 64⟩
    let w : World Unit := ⟨.circular, ()⟩
    let v : Value := .object Realm.store.fresh
    w.machine.Reachable .checked ∧ (∀ k out, ¬ Act.Acquires env k v w out) ∧
      ∀ n, ∃ w', Act.getIterator v .async none { env with rounds := n } w = .fault .exhausted w' := by
  intro env w v
  have circular : w.machine.store.Circular Realm.store.fresh :=
    ⟨⟨none, by decide⟩, by decide, by decide, ⟨.object ⟨22⟩, by decide⟩, by decide⟩
  have depth : 0 < env.maxDepth := by decide
  have never := Act.not_acquires_of_circular depth (fun _ _ _ => rfl) circular
  refine ⟨Machine.circular_reachable, never, fun n => ?_⟩
  rw [Act.getIterator_async]
  exact Act.acquireAsync_exhausted never n

end EcmaObjects
