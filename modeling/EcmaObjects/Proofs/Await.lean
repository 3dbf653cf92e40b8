/-
  EcmaObjects.Proofs.Await — how an await ends.

  A settlement is decided by the functions that are handed to `then`, and so with a value or
  with a throw (`World.Settled`). Whatever else `then` does, settling ends so as well
  (`settle_throws`), and so do the errors of an await. What is left is the look-up of `then`
  itself: a getter there may end with a break or a continue, and the await passes that on.
  - `await_law`: an await ends with a value that it has come to (`Awaits`), or with a throw, or
    as a look-up of `then` ended on the way; it never ends with a return.
  - `a_then_getter_breaks_out_of_an_await`: such a look-up, and the break that comes of it.
-/

import EcmaObjects.Proofs.Operations
import EcmaObjects.Proofs.Propagation
import EcmaObjects.Proofs.Reading

namespace EcmaObjects

variable {σ α β : Type}

/-! ## Settlements -/

/-- A value or a throw. -/
def Completion.Settles : Completion → Prop
  | .normal _ | .abrupt (.thrown _) => True
  | .abrupt (.returned _) | .abrupt (.broken ..) | .abrupt (.continued ..) => False

/-- Every settlement that is decided was decided with a value or a throw. -/
def World.Settled (w : World σ) : Prop :=
  ∀ (n : Nat) (c : Completion), w.machine.settlements[n]? = some (some c) → c.Settles

def Env.KeepsSettled (env : Env σ) : Prop := ∀ b this args w, w.Settled → (env.perform b this args w).world.Settled

def Act.KeepsSettled (x : Act σ α) : Prop := ∀ env : Env σ, env.KeepsSettled → ∀ w, w.Settled → (x env w).world.Settled

/-- The host's functions decide settlements by the functions handed to `then`, if at all. -/
def Host.KeepsSettled (host : Host σ) : Prop := ∀ code this args, (host code this args).KeepsSettled

theorem World.Settled.of_eq {w w' : World σ} (h : w.Settled) (same : w'.machine.settlements = w.machine.settlements) :
    w'.Settled := by
  intro n c hc
  rw [same] at hc
  exact h n c hc

namespace Act

/-- Actions that leave the settlements alone in every environment, and so perform nothing. -/
def Quiet (x : Act σ α) : Prop := ∀ env w, (x env w).world.machine.settlements = w.machine.settlements

namespace Quiet

theorem define (o : ObjectId) (k : PropertyKey) (d : Descriptor) : Quiet (define o k d : Act σ Bool) := by
  intro env w
  rw [define_apply]
  cases w.machine.store.define? o k d <;> rfl

theorem setProto (o : ObjectId) (p : Option ObjectId) : Quiet (setProto o p : Act σ Bool) := by
  intro env w
  have ends := setProto_reparents o p env w
  generalize Act.setProto o p env w = result at ends ⊢
  cases ends <;> rfl

theorem listNext (this : Value) : Quiet (listNext this : Act σ Value) := by
  intro env w
  rw [listNext_apply]
  cases w.machine.store.nextItem? this <;> rfl

end Quiet

namespace KeepsSettled

theorem of_quiet {x : Act σ α} (h : Quiet x) : KeepsSettled x := fun env _ w hw => hw.of_eq (h env w)

theorem bind {x : Act σ α} {f : α → Act σ β} (hx : KeepsSettled x) (hf : ∀ a, KeepsSettled (f a)) :
    KeepsSettled (x >>= f) := by
  intro env he w hw
  have h := hx env he w hw
  rw [bind_apply]
  cases hr : x env w with
  | ok a w₁ =>
    rw [hr] at h
    exact hf a env he w₁ h
  | abrupt c w₁ | fault e w₁ =>
    rw [hr] at h
    exact h

theorem attempt {x : Act σ α} (hx : KeepsSettled x) : KeepsSettled (attempt x) := by
  intro env he w hw
  have h := hx env he w hw
  rw [attempt_apply]
  cases hr : x env w with
  | ok a w₁ | abrupt c w₁ | fault e w₁ =>
    rw [hr] at h
    exact h

theorem of_ok {x : Act σ α} (h : KeepsSettled x) {env : Env σ} (he : env.KeepsSettled) {w w' : World σ} (hw : w.Settled)
    {a : α} (hr : x env w = .ok a w') : w'.Settled := by
  have kept := h env he w hw
  rw [hr] at kept
  exact kept

theorem newSettlement : KeepsSettled (newSettlement : Act σ Nat) := by
  intro env _ w hw n c hc
  have pushed : (w.machine.settlements.push none)[n]? = some (some c) := hc
  rw [Array.getElem?_push] at pushed
  split at pushed
  · cases pushed
  · exact hw n c pushed

/-- The first decision stands, and is a value or a throw. -/
theorem settleWith (n : Nat) (fulfilled : Bool) (args : List Value) : KeepsSettled (settleWith n fulfilled args : Act σ Value) := by
  intro env _ w hw m c hc
  let outcome : Completion :=
    if fulfilled then .normal (args.head?.getD .undefined) else .abrupt (.thrown (args.head?.getD .undefined))
  have decided : (w.machine.settlements.modify n (· <|> some outcome))[m]? = some (some c) := hc
  have settles : outcome.Settles := by
    cases fulfilled with
    | true => trivial
    | false => trivial
  rw [Array.getElem?_modify] at decided
  split at decided
  · obtain ⟨before, hb, he⟩ := Option.map_eq_some_iff.mp decided
    cases before with
    | some first =>
      cases he
      exact hw m _ hb
    | none =>
      have same : outcome = c := Option.some.inj he
      rw [← same]
      exact settles
  · exact hw m c decided

theorem closed : Closed (fun {α : Type} (x : Act σ α) => KeepsSettled x) where
  ret _ := of_quiet fun _ _ => rfl
  bind := bind
  raise _ := of_quiet fun _ _ => rfl
  fail _ := of_quiet fun _ _ => rfl
  attempt := attempt
  maxDepth := of_quiet fun _ _ => rfl
  rounds := of_quiet fun _ _ => rfl
  store := of_quiet fun _ _ => rfl
  perform b this args := fun _ he w hw => he b this args w hw
  create _ := of_quiet fun _ _ => rfl
  define o k _ _ := of_quiet (.define o k _)
  setProto o p := of_quiet (.setProto o p)
  listNext this := of_quiet (.listNext this)
  newSettlement := newSettlement
  settlement? _ := of_quiet fun _ _ => rfl
  settleWith := settleWith

end KeepsSettled
end Act

theorem Env.keepsSettled_ofHost {host : Host σ} (hh : host.KeepsSettled) (config : Config) (budget : Budget) :
    (Env.ofHost host config budget).KeepsSettled := by
  obtain ⟨depth, rounds⟩ := budget
  induction depth with
  | zero => exact fun _ _ _ _ hw => hw
  | succ depth ih =>
    intro b this args w hw
    exact Act.KeepsSettled.closed.behavior hh b this args (.ofHost host config ⟨depth, rounds⟩) ih w hw

namespace Act

/-! ## Settling -/

theorem settle_throws {env : Env σ} (he : env.KeepsSettled) {w w' : World σ} (hw : w.Settled) {v method : Value}
    {c : Abrupt} (h : settle v method env w = .abrupt c w') : ∃ u, c = .thrown u := by
  rcases bind_eq_abrupt h with hn | ⟨n, w₁, hn, h⟩
  · cases hn
  rcases bind_eq_abrupt h with hf | ⟨resolve, w₂, hf, h⟩
  · cases hf
  rcases bind_eq_abrupt h with hg | ⟨reject, w₃, hg, h⟩
  · cases hg
  rcases bind_eq_abrupt h with hc | ⟨called, w₄, hc, h⟩
  · exact absurd hc (callFunction_ne_abrupt _ _ _ _ _ _ _)
  rcases bind_eq_abrupt h with hd | ⟨decided, w₅, hd, h⟩
  · cases hd
  have settled : w₄.Settled := by
    have h₁ := KeepsSettled.newSettlement.of_ok he hw hn
    have h₂ := (KeepsSettled.closed.newFunction _).of_ok he h₁ hf
    have h₃ := (KeepsSettled.closed.newFunction _).of_ok he h₂ hg
    exact (KeepsSettled.closed.callFunction _ _ _).of_ok he h₃ hc
  cases decided with
  | some outcome =>
    have settles : outcome.Settles := by
      cases hs : w₄.machine.settlements[n]? with
      | none =>
        rw [settlement?, hs] at hd
        cases hd
      | some o =>
        rw [settlement?, hs] at hd
        cases hd
        exact settled n outcome hs
    cases outcome with
    | normal u => cases h
    | abrupt a =>
      cases h
      cases c with
      | thrown u => exact ⟨u, rfl⟩
      | returned | broken | continued => exact settles.elim
  | none =>
    cases called with
    | normal u =>
      cases h
      exact ⟨_, rfl⟩
    | abrupt a => cases a <;> cases h <;> exact ⟨_, rfl⟩

/-! ## One round -/

/-- One round: what is awaited is given, or settled to something that is awaited in turn. -/
theorem resolution_apply (n : Nat) (v : Value) (env : Env σ) (w : World σ) :
    resolution n v env w =
      if v.isObject then
        match getV v "then" env w with
        | .ok method w₁ =>
          if w₁.machine.store.isCallable method then
            match settle v method env w₁ with
            | .ok u w₂ =>
              if u.strictEq v then throwCause .settledWithItself env w₂
              else
                match n with
                | 0 => throwCause .chainTooDeep env w₂
                | n + 1 => resolution n u env w₂
            | .abrupt c w₂ => .abrupt c w₂
            | .fault e w₂ => .fault e w₂
          else .ok v w₁
        | .abrupt c w₁ => .abrupt c w₁
        | .fault e w₁ => .fault e w₁
      else .ok v w := by
  conv =>
    lhs
    unfold resolution
  cases hv : v.isObject with
  | false => rfl
  | true =>
    rw [if_neg (by decide), if_pos rfl, bind_apply]
    cases getV v "then" env w with
    | abrupt c w₁ | fault e w₁ => rfl
    | ok method w₁ =>
      simp only [isCallable, bind_apply, store_apply, pure_apply]
      cases hc : w₁.machine.store.isCallable method with
      | false => rfl
      | true =>
        rw [if_neg (by decide), if_pos rfl, bind_apply]
        cases settle v method env w₁ with
        | abrupt c w₂ | fault e w₂ => rfl
        | ok u w₂ =>
          show (if u.strictEq v = true then throwCause .settledWithItself
            else match n with | 0 => tooDeep | n + 1 => resolution n u : Act σ Value) env w₂ = _
          by_cases hs : u.strictEq v = true
          · simp only [hs, if_true]
          · simp only [hs]
            cases n <;> rfl

theorem await_of_not_thenable {env : Env σ} {w w₁ : World σ} {o : ObjectId} {f : Value}
    (hf : getV (.object o) "then" env w = .ok f w₁) (hc : w₁.machine.store.isCallable f = false) :
    await (.object o) env w = .ok (.normal (.object o)) w₁ := by
  have resolved (n : Nat) : resolution n (.object o) env w = .ok (.object o) w₁ := by
    rw [resolution_apply, if_pos (show (Value.object o).isObject = true from rfl), hf]
    simp only [hc, Bool.false_eq_true, if_false]
  simp only [await, bind_apply, maxDepth_apply, completion_apply, resolved]

/-! ## All rounds -/

/-- After `k` settlements, beginning with that of `v`, what is awaited is `u`. -/
inductive Awaits (env : Env σ) : Nat → Value → World σ → Value → World σ → Prop
  | here (v : Value) (w : World σ) : Awaits env 0 v w v w
  | settled {k : Nat} {v method u u' : Value} {w w₁ w₂ w' : World σ} :
      v.isObject = true → getV v "then" env w = .ok method w₁ → w₁.machine.store.isCallable method = true →
      settle v method env w₁ = .ok u w₂ → u.strictEq v = false →
      Awaits env k u w₂ u' w' → Awaits env (k + 1) v w u' w'

/-- On the way, within the limit, a look-up of `then` ends with `a`. -/
def LookUpEnds (env : Env σ) (limit : Nat) (v : Value) (w : World σ) (a : Abrupt) (w' : World σ) : Prop :=
  ∃ k u w₁, k ≤ limit ∧ Awaits env k v w u w₁ ∧ u.isObject = true ∧ getV u "then" env w₁ = .abrupt a w'

/-- The way ends at `u`, within the limit: it is no object, or has no `then` to call. -/
def ComesTo (env : Env σ) (limit : Nat) (v : Value) (w : World σ) (u : Value) (w' : World σ) : Prop :=
  ∃ k w₁, k ≤ limit ∧ Awaits env k v w u w₁ ∧ (u.isObject = false ∧ w' = w₁ ∨
    ∃ f, getV u "then" env w₁ = .ok f w' ∧ w'.machine.store.isCallable f = false)

section
variable {env : Env σ} {n k : Nat} {v method u : Value} {w w₁ w₂ w' : World σ} {a : Abrupt}

theorem resolution_settled (hv : v.isObject = true) (hf : getV v "then" env w = .ok method w₁)
    (hc : w₁.machine.store.isCallable method = true) (hs : settle v method env w₁ = .ok u w₂)
    (hu : u.strictEq v = false) : resolution (n + 1) v env w = resolution n u env w₂ := by
  rw [resolution_apply, if_pos hv, hf]
  simp only [hc, if_true, hs, hu, Bool.false_eq_true, if_false]

theorem LookUpEnds.resolution (h : LookUpEnds env n v w a w') : resolution n v env w = .abrupt a w' := by
  obtain ⟨k, u, w₁, hk, awaits, hu, hf⟩ := h
  induction awaits generalizing n with
  | here v w => rw [resolution_apply, if_pos hu, hf]
  | settled hv hm hc hs hne _ ih =>
    obtain ⟨m, rfl⟩ : ∃ m, n = m + 1 := ⟨n - 1, by omega⟩
    rw [resolution_settled hv hm hc hs hne]
    exact ih (by omega) hu hf

theorem LookUpEnds.settled (hv : v.isObject = true) (hf : getV v "then" env w = .ok method w₁)
    (hc : w₁.machine.store.isCallable method = true) (hs : settle v method env w₁ = .ok u w₂)
    (hu : u.strictEq v = false) (h : LookUpEnds env n u w₂ a w') : LookUpEnds env (n + 1) v w a w' := by
  obtain ⟨k, u', w₃, hk, awaits, hu', hg⟩ := h
  exact ⟨k + 1, u', w₃, Nat.succ_le_succ hk, .settled hv hf hc hs hu awaits, hu', hg⟩

theorem ComesTo.settled {u' : Value} (hv : v.isObject = true) (hf : getV v "then" env w = .ok method w₁)
    (hc : w₁.machine.store.isCallable method = true) (hs : settle v method env w₁ = .ok u w₂)
    (hu : u.strictEq v = false) (h : ComesTo env n u w₂ u' w') : ComesTo env (n + 1) v w u' w' := by
  obtain ⟨k, w₃, hk, awaits, ends⟩ := h
  exact ⟨k + 1, w₃, Nat.succ_le_succ hk, .settled hv hf hc hs hu awaits, ends⟩

end

/-- How the awaiting of `v` may end, `limit` settlements being allowed. -/
inductive Ends (env : Env σ) (limit : Nat) (v : Value) (w : World σ) : Result σ Value → Prop
  | value {u : Value} {w' : World σ} : ComesTo env limit v w u w' → Ends env limit v w (.ok u w')
  | thrown (u : Value) (w' : World σ) : Ends env limit v w (.abrupt (.thrown u) w')
  | lookUp {a : Abrupt} {w' : World σ} : LookUpEnds env limit v w a w' → Ends env limit v w (.abrupt a w')
  | fault (e : Fault) (w' : World σ) : Ends env limit v w (.fault e w')

/-- By induction on the limit, with one round for each step. -/
theorem resolution_ends {env : Env σ} (he : env.KeepsSettled) (n : Nat) (v : Value) {w : World σ} (hw : w.Settled) :
    Ends env n v w (resolution n v env w) := by
  induction n using Nat.strongRecOn generalizing v w with
  | ind n ih =>
    rw [resolution_apply]
    cases hv : v.isObject with
    | false => exact .value ⟨0, w, Nat.zero_le _, .here v w, .inl ⟨hv, rfl⟩⟩
    | true =>
      rw [if_pos rfl]
      cases hf : getV v "then" env w with
      | abrupt a w₁ => exact .lookUp ⟨0, v, w, Nat.zero_le _, .here v w, hv, hf⟩
      | fault e w₁ => exact .fault e w₁
      | ok method w₁ =>
        have h₁ : w₁.Settled := (KeepsSettled.closed.getV v "then").of_ok he hw hf
        simp only
        cases hc : w₁.machine.store.isCallable method with
        | false => exact .value ⟨0, w, Nat.zero_le _, .here v w, .inr ⟨method, hf, hc⟩⟩
        | true =>
          rw [if_pos rfl]
          cases hs : settle v method env w₁ with
          | fault e w₂ => exact .fault e w₂
          | abrupt a w₂ =>
            obtain ⟨u, rfl⟩ := settle_throws he h₁ hs
            exact .thrown u w₂
          | ok u w₂ =>
            have h₂ : w₂.Settled := (KeepsSettled.closed.settle v method).of_ok he h₁ hs
            simp only
            cases hu : u.strictEq v with
            | true => exact .thrown _ _
            | false =>
              cases n with
              | zero => exact .thrown _ _
              | succ m =>
                have rest := ih m (Nat.lt_succ_self m) u h₂
                show Ends env (m + 1) v w (resolution m u env w₂)
                generalize resolution m u env w₂ = result at rest ⊢
                cases rest with
                | value h => exact .value (h.settled hv hf hc hs hu)
                | thrown u' w' => exact .thrown u' w'
                | lookUp h => exact .lookUp (h.settled hv hf hc hs hu)
                | fault e w' => exact .fault e w'

/-! ## The law of await -/

/-- How an await of `v` ends. -/
structure AwaitLaw (env : Env σ) (v : Value) (w : World σ) : Prop where
  completes : ∀ a w', await v env w ≠ .abrupt a w'
  value {u : Value} {w' : World σ} : await v env w = .ok (.normal u) w' → ComesTo env env.maxDepth v w u w'
  /-- It is no value and no throw exactly where a look-up of `then` on the way ended so. -/
  escapes_iff {a : Abrupt} {w' : World σ} : ¬ (Completion.abrupt a).Settles →
    (await v env w = .ok (.abrupt a) w' ↔ LookUpEnds env env.maxDepth v w a w')
  /-- So it is a value or a throw, where look-ups of `then` fail with throws only. -/
  settles : (∀ a w', LookUpEnds env env.maxDepth v w a w' → (Completion.abrupt a).Settles) →
    ∀ c w', await v env w = .ok c w' → c.Settles
  never_returns : ∀ u w', await v env w ≠ .ok (.abrupt (.returned u)) w'
  settled : (await v env w).world.Settled

theorem await_apply (v : Value) (env : Env σ) (w : World σ) :
    await v env w = match resolution env.maxDepth v env w with
      | .ok u w₁ => .ok (.normal u) w₁
      | .abrupt a w₁ => .ok (.abrupt a) w₁
      | .fault e w₁ => .fault e w₁ := by
  rw [await, bind_apply, maxDepth_apply]
  exact completion_apply env w _

/-- An await whose completion is abrupt ended with a throw, or as a look-up of `then` did. -/
theorem await_abrupt {env : Env σ} (he : env.KeepsSettled) {v : Value} {w w' : World σ} (hw : w.Settled) {a : Abrupt}
    (h : await v env w = .ok (.abrupt a) w') : (∃ u, a = .thrown u) ∨ LookUpEnds env env.maxDepth v w a w' := by
  have ends := resolution_ends he env.maxDepth v hw
  rw [await_apply] at h
  generalize resolution env.maxDepth v env w = result at h ends
  cases ends with
  | value | fault => cases h
  | thrown u =>
    cases h
    exact .inl ⟨u, rfl⟩
  | lookUp hl =>
    cases h
    exact .inr hl

/-- In every evaluation, an await ends with a value or a throw, unless a look-up of `then` ends
    otherwise on the way. -/
theorem await_law {host : Host σ} (hh : host.KeepsSettled) (config : Config) (budget : Budget) (v : Value) {w : World σ}
    (hw : w.Settled) : AwaitLaw (.ofHost host config budget) v w := by
  have he := Env.keepsSettled_ofHost hh config budget
  have escapes {a : Abrupt} {w' : World σ} (hl : LookUpEnds (.ofHost host config budget) config.maxDepth v w a w') :
      await v (.ofHost host config budget) w = .ok (.abrupt a) w' := by
    have fails : resolution (Env.ofHost host config budget).maxDepth v (.ofHost host config budget) w = .abrupt a w' :=
      hl.resolution
    rw [await_apply, fails]
  constructor
  · intro a w' h
    rw [await_apply] at h
    cases hr : resolution (Env.ofHost host config budget).maxDepth v (.ofHost host config budget) w with
    | ok u w₁ | abrupt a w₁ | fault e w₁ =>
      rw [hr] at h
      cases h
  · intro u w' h
    have ends := resolution_ends he (Env.ofHost host config budget).maxDepth v hw
    rw [await_apply] at h
    generalize resolution _ v _ w = result at h ends
    cases ends with
    | value hc =>
      cases h
      exact hc
    | thrown | lookUp | fault => cases h
  · intro a w' hn
    constructor
    · intro h
      rcases await_abrupt he hw h with ⟨u, rfl⟩ | hl
      · exact absurd trivial hn
      · exact hl
    · exact escapes
  · intro plain c w' h
    cases c with
    | normal u => trivial
    | abrupt a =>
      rcases await_abrupt he hw h with ⟨u, rfl⟩ | hl
      · trivial
      · exact plain a w' hl
  · intro u w' h
    rcases await_abrupt he hw h with ⟨x, hx⟩ | ⟨k, x, w₁, -, -, -, hf⟩
    · cases hx
    · exact (Orderly.getV x "then" _ _ _ _ hf).propagates
  · exact KeepsSettled.closed.await v _ he w hw

/-- The await of an object whose `then` settles it with null comes to null. -/
theorem an_await_of_a_settled_thenable :
    let host : Host Unit := fun _ _ args => call (args.head?.getD .undefined) .undefined [.null]
    let env : Env Unit := .ofHost host ⟨8⟩ ⟨64, 64⟩
    let method : Value := .object Realm.store.fresh
    let thenable : Object := ({} : Object).insert "then" (.plain method)
    let first : World Unit := ⟨{}, ()⟩
    let w := (first.add (.ofFunction ⟨"then", 2, .host 0⟩)).add thenable
    let v : Value := .object ⟨Realm.store.size + 1⟩
    host.KeepsSettled ∧ w.Settled ∧ ∃ w', await v env w = .ok (.normal .null) w' ∧ ComesTo env 8 v w .null w' := by
  intro host env method thenable first w v
  have hh : host.KeepsSettled := fun _ _ _ => KeepsSettled.closed.call _ _ _
  have hw : w.Settled := fun n c hc => by simp [w, first, World.add] at hc
  have awaited : ∃ w', await v env w = .ok (.normal .null) w' := ⟨_, rfl⟩
  obtain ⟨w', ha⟩ := awaited
  exact ⟨hh, hw, w', ha, (await_law hh ⟨8⟩ ⟨64, 64⟩ v hw).value ha⟩

/-- A getter for `then` that ends with a break ends the await with that break. -/
theorem a_then_getter_breaks_out_of_an_await :
    let host : Host Unit := fun _ _ _ => .raise (.broken (some "out") none)
    let session : Act Unit Completion := do
      let getter ← newFunction ⟨"then", 0, .host 0⟩
      let o ← create {}
      let _ ← define o "then" { getter := some getter }
      await (.object o)
    ∃ c w, session.run host ⟨8⟩ ⟨64, 64⟩ ⟨{}, ()⟩ = .ok c w ∧ c = .abrupt (.broken (some "out") none) ∧ ¬ c.Settles :=
  ⟨_, _, rfl, rfl, fun settles => settles⟩

end Act

end EcmaObjects
