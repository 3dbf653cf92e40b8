/-
  EcmaObjects.Proofs.Public — operations change the machine by its steps only.

  `Act.Public` are the actions that reach the machine through its operations: those
  operations, and whatever is put together from them by sequencing, catching and
  raising, with any use of the host's own state in between. The code of a host is
  public if all its functions are (`Host.Public`); so a run of a public action is any
  sequence of operations with any arguments, nested in one another as calls nest.
  - `run_steps`: such a run takes the machine through a sequence of its steps, however
    it ends and wherever it breaks off.
  - every operation of the library is public (`Public.closed`), and so are the functions
    that every store starts with (`Builtin.public`).
-/

import EcmaObjects.Proofs.Action
import EcmaObjects.Proofs.Operations

namespace EcmaObjects

variable {R : Rules} {σ α β : Type}

/-! ## Public actions -/

namespace Act

inductive Public (R : Rules) : {α : Type} → Act σ α → Prop
  | ret {α : Type} (a : α) : Public R (pure a : Act σ α)
  | bind {α β : Type} {x : Act σ α} {f : α → Act σ β} : Public R x → (∀ a, Public R (f a)) → Public R (x >>= f)
  | raise {α : Type} (c : Abrupt) : Public R (raise c : Act σ α)
  | fail {α : Type} (f : Fault) : Public R (fail f : Act σ α)
  | attempt {α : Type} {x : Act σ α} : Public R x → Public R (attempt x)
  | maxDepth : Public R maxDepth
  | rounds : Public R rounds
  | store : Public R store
  | withHost {α : Type} (f : σ → α × σ) : Public R (withHost f)
  | perform (b : Behavior) (this : Value) (args : List Value) : Public R (perform b this args)
  | create {obj : Object} : obj.Born → Public R (create obj)
  | newSymbol (description : Option String) : Public R (newSymbol description)
  | define (o : ObjectId) (k : PropertyKey) {d : Descriptor} : R.Allows d → Public R (define o k d)
  | setProto (o : ObjectId) (p : Option ObjectId) : Public R (setProto o p)
  | listNext (this : Value) : Public R (listNext this)
  | newSettlement : Public R newSettlement
  | settlement? (n : Nat) : Public R (settlement? n)
  | decideOnce (n : Nat) (outcome : Completion) : Public R (decideOnce n outcome)
  /-- The object takes no more properties. -/
  | prevent (o : ObjectId) : Public R (modifyStore (·.modify o fun obj => { obj with extensible := false }))
  | insert (o : ObjectId) (k : PropertyKey) (d : Descriptor) :
      R.raw = true → Public R (modifyStore (·.modify o (·.insert k d)))

end Act

def Host.Public (R : Rules) (host : Host σ) : Prop := ∀ code this args, Act.Public R (host code this args)

/-! ## Public actions make steps -/

def Env.Steps (R : Rules) (env : Env σ) : Prop :=
  ∀ b this args w, Machine.Run R w.machine (env.perform b this args w).world.machine

def Act.Steps (R : Rules) (x : Act σ α) : Prop :=
  ∀ env : Env σ, env.Steps R → ∀ w, Machine.Run R w.machine (x env w).world.machine

namespace Act

theorem Steps.bind {x : Act σ α} {f : α → Act σ β} (hx : Steps R x) (hf : ∀ a, Steps R (f a)) : Steps R (x >>= f) := by
  intro env he w
  have h := hx env he w
  rw [bind_apply]
  cases hr : x env w with
  | ok a w₁ => rw [hr] at h; exact h.trans (hf a env he w₁)
  | abrupt c w₁ => rw [hr] at h; exact h
  | fault e w₁ => rw [hr] at h; exact h

theorem Steps.attempt {x : Act σ α} (hx : Steps R x) : Steps R (attempt x) := by
  intro env he w
  have h := hx env he w
  rw [attempt_apply]
  cases hr : x env w with
  | ok a w₁ | abrupt c w₁ | fault e w₁ => rw [hr] at h; exact h

theorem steps_create {obj : Object} (h : obj.Born) : Steps R (create obj : Act σ ObjectId) :=
  fun _ _ w => .single (.create w.machine h)

theorem steps_throwCause (c : Cause) : Steps R (throwCause c : Act σ α) :=
  fun _ _ w => .single (.create w.machine (Object.born_ofError _ _))

theorem steps_define (o : ObjectId) (k : PropertyKey) {d : Descriptor} (hd : R.Allows d) :
    Steps R (define o k d : Act σ Bool) := by
  intro env _ w
  simp only [define, bind_apply, store_apply]
  cases hs : w.machine.store.define? o k d with
  | none => exact .refl
  | some s => exact .single (.define w.machine hd hs)

theorem steps_setProto (o : ObjectId) (p : Option ObjectId) : Steps R (setProto o p : Act σ Bool) := by
  intro env he w
  have ends := setProto_reparents o p env w
  generalize setProto o p env w = result at ends ⊢
  cases ends with
  | missing | unchanged | closed | cycle => exact .refl
  | tooDeep => exact steps_throwCause .chainTooDeep (α := Unit) env he w
  | granted hg hx hr => exact .single (.reparent w.machine hg hx hr)

theorem steps_iterResult (v : Value) (done : Bool) : Steps R (iterResult v done : Act σ ObjectId) :=
  .bind (steps_create (.plain _ none rfl)) fun o => .bind (steps_define o _ (.inr rfl)) fun _ =>
    .bind (steps_define o _ (.inr rfl)) fun _ _ _ _ => .refl

/-- The list's position moves before the result is made, so the two are steps of one run. -/
theorem steps_listNext (this : Value) : Steps R (listNext this : Act σ Value) := by
  intro env he w
  simp only [listNext, bind_apply, store_apply]
  cases hn : w.machine.store.nextItem? this with
  | none => exact steps_throwCause _ env he w
  | some r =>
    obtain ⟨item, s⟩ := r
    have first : Machine.Step R w.machine { w.machine with store := s } := .advance w.machine hn
    have rest : Steps R (do return .object (← iterResult (item.getD .undefined) item.isNone) : Act σ Value) :=
      .bind (steps_iterResult _ _) fun _ _ _ _ => .refl
    exact .head first (rest env he { w with machine := { w.machine with store := s } })

/-- A public action makes steps only, if all code that it performs does. -/
theorem Public.steps {x : Act σ α} (h : Public R x) : Steps R x := by
  induction h with
  | ret | raise | fail | maxDepth | rounds | store | withHost | settlement? => exact fun _ _ _ => .refl
  | bind _ _ ihx ihf => exact ihx.bind ihf
  | attempt _ ih => exact ih.attempt
  | perform b this args => exact fun _ he w => he b this args w
  | create h => exact steps_create h
  | newSymbol => exact fun _ _ w => .single (.symbol w.machine)
  | define o k h => exact steps_define o k h
  | setProto o p => exact steps_setProto o p
  | listNext this => exact steps_listNext this
  | newSettlement => exact fun _ _ w => .single (.settlement w.machine)
  | decideOnce n outcome => exact fun _ _ w => .single (.decide w.machine n outcome)
  | prevent o => exact fun _ _ w => .single (.prevent w.machine o)
  | insert o k d h => exact fun _ _ w => .single (.insert w.machine o k d h)

/-! ## The operations are public -/

namespace Public

theorem closed : Closed (fun {α : Type} (x : Act σ α) => Public R x) where
  ret := .ret
  bind := .bind
  raise := .raise
  fail := .fail
  attempt := .attempt
  maxDepth := .maxDepth
  rounds := .rounds
  store := .store
  perform := .perform
  create := .create
  define o k _ hd := .define o k (.inr hd)
  setProto := .setProto
  listNext := .listNext
  newSettlement := .newSettlement
  settlement? := .settlement?
  settleWith _ _ _ := .bind (.decideOnce _ _) fun _ => .ret _

theorem call (f this : Value) (args : List Value) : Public R (call f this args : Act σ Value) := closed.call f this args

theorem createData (o : ObjectId) (k : PropertyKey) (v : Value) : Public R (createData o k v : Act σ Bool) :=
  closed.createData o k v

theorem set (o : ObjectId) (k : PropertyKey) (v receiver : Value) : Public R (set o k v receiver : Act σ Bool) :=
  closed.set o k v receiver

theorem listIterator (items : List Value) : Public R (listIterator items : Act σ IteratorRecord) :=
  closed.listIterator items

end Public
end Act

/-! ## Runs -/

theorem Builtin.public (b : Builtin) (this : Value) (args : List Value) :
    Act.Public R (b.run this args : Act σ Value) := Act.Public.closed.builtin b this args

theorem Behavior.public {host : Host σ} (hh : host.Public R) (b : Behavior) (this : Value) (args : List Value) :
    Act.Public R (b.run host this args) := Act.Public.closed.behavior hh b this args

/-- Native code makes steps only, however deep its calls are nested. -/
theorem performAt_steps {host : Host σ} (hh : host.Public R) (config : Config) (rounds : Nat) (depth : Nat) :
    Env.Steps R ⟨config.maxDepth, rounds, performAt host config rounds depth⟩ := by
  induction depth with
  | zero => exact fun _ _ _ _ => .refl
  | succ depth ih => exact fun b this args w => (b.public hh this args).steps _ ih w

/-- The store that a run leaves. -/
def Act.storeAfter (x : Act σ α) (host : Host σ) (config : Config) (budget : Budget) (w : World σ) : Store :=
  (x.run host config budget w).world.machine.store

/-- Running a public action takes the machine through a sequence of steps. -/
theorem run_steps {host : Host σ} (hh : host.Public R) {x : Act σ α} (hx : Act.Public R x) (config : Config)
    (budget : Budget) (w : World σ) : Machine.Run R w.machine (x.run host config budget w).world.machine :=
  hx.steps _ (performAt_steps hh config budget.rounds budget.depth) w

end EcmaObjects
