/-
  EcmaObjects.Proofs.Settlement — the first settlement wins.

  A `then` is called with two functions of one settlement, and so is the code that it calls.
  `Act.SettleCalls` lists all calls of the two, in the order in which they are made, nested in
  other calls or not; nothing else decides the settlement (`SettleCalls.sound`), and every script
  makes some list of calls (`SettleCalls.scripts`).
  - `settlement_law`: what is awaited is settled by the first call of the list, however `then` itself
    ends. If there is none, a throw of `then` is the outcome, and any other end an error. A call
    after `then` has ended decides at most the settlement that is over: it is no call for another.
-/

import EcmaObjects.Proofs.Await
import EcmaObjects.Proofs.Public

namespace EcmaObjects

variable {R : Rules} {σ α β : Type}

/-- Any definition may be asked for, and anything stored. -/
def Rules.free : Rules := ⟨true, true⟩

/-! ## Settlements -/

def World.decided? (w : World σ) (n : Nat) : Option Completion := w.machine.settlements[n]?.getD none

def World.decide (w : World σ) (n : Nat) (outcome : Completion) : World σ :=
  { w with machine := { w.machine with settlements := w.machine.settlements.modify n (· <|> some outcome) } }

namespace World

theorem size_decide (w : World σ) (n : Nat) (outcome : Completion) :
    (w.decide n outcome).machine.settlements.size = w.machine.settlements.size := Array.size_modify

theorem decided?_decide {w : World σ} {n : Nat} (hn : n < w.machine.settlements.size) (outcome : Completion) :
    (w.decide n outcome).decided? n = (w.decided? n).or (some outcome) := by
  simp only [decided?, decide, Array.getElem?_modify, if_true, Array.getElem?_eq_getElem hn, Option.map_some, Option.getD_some,
    Option.orElse_eq_orElse, Option.orElse_eq_or]

theorem decided?_decide_ne {w : World σ} {n m : Nat} (h : m ≠ n) (outcome : Completion) :
    (w.decide m outcome).decided? n = w.decided? n := by
  simp [decided?, decide, Array.getElem?_modify, h]

theorem decide_of_decided {w : World σ} {n : Nat} {c : Completion} (h : w.decided? n = some c) (outcome : Completion) :
    w.decide n outcome = w := by
  have same : w.machine.settlements.modify n (· <|> some outcome) = w.machine.settlements := by
    apply Array.ext_getElem?
    intro i
    rw [Array.getElem?_modify]
    split
    · rename_i hi
      subst hi
      unfold decided? at h
      cases hs : w.machine.settlements[n]? with
      | none => rfl
      | some o =>
        rw [hs] at h
        cases h
        rfl
    · rfl
  rw [decide, same]

end World

/-! ## Calls of the two functions -/

structure SettleCall where
  fulfilled : Bool
  args : List Value
  deriving DecidableEq, Repr

namespace SettleCall

def argument (c : SettleCall) : Value := c.args.head?.getD .undefined

def outcome (c : SettleCall) : Completion := if c.fulfilled then .normal c.argument else .abrupt (.thrown c.argument)

end SettleCall

namespace Act

theorem settleWith_apply (n : Nat) (fulfilled : Bool) (args : List Value) (env : Env σ) (w : World σ) :
    settleWith n fulfilled args env w = .ok .undefined (w.decide n (SettleCall.mk fulfilled args).outcome) := rfl

section
variable (host : Host σ) (config : Config) (rounds : Nat) (n : Nat)

/-- The calls of the functions of settlement `n`, in the order in which they are made, while an
    action runs with at most `depth` calls nested in it. A call that breaks off the evaluation at
    the bottom is not made. -/
inductive SettleCalls : {α : Type} → Nat → Act σ α → World σ → List SettleCall → Prop
  | settles (depth : Nat) (fulfilled : Bool) (args : List Value) (w : World σ) :
      SettleCalls depth (settleWith n fulfilled args) w [⟨fulfilled, args⟩]
  | other (depth : Nat) {m : Nat} (fulfilled : Bool) (args : List Value) (w : World σ) :
      m ≠ n → SettleCalls depth (settleWith m fulfilled args) w []
  | opens (depth : Nat) (w : World σ) : SettleCalls depth newSettlement w []
  | quiet {α : Type} (depth : Nat) {x : Act σ α} (w : World σ) : x.Quiet → SettleCalls depth x w []
  | bind {α β : Type} {depth : Nat} {x : Act σ α} {f : α → Act σ β} {a : α} {w w₁ : World σ} {l l' : List SettleCall} :
      SettleCalls depth x w l → x.run host config ⟨depth, rounds⟩ w = .ok a w₁ → SettleCalls depth (f a) w₁ l' →
      SettleCalls depth (x >>= f) w (l ++ l')
  /-- What does not end normally is not gone on with. -/
  | stop {α β : Type} {depth : Nat} {x : Act σ α} {f : α → Act σ β} {w : World σ} {l : List SettleCall} :
      SettleCalls depth x w l → (∀ a w₁, x.run host config ⟨depth, rounds⟩ w ≠ .ok a w₁) →
      SettleCalls depth (x >>= f) w l
  | attempt {α : Type} {depth : Nat} {x : Act σ α} {w : World σ} {l : List SettleCall} :
      SettleCalls depth x w l → SettleCalls depth (attempt x) w l
  | perform {depth : Nat} {b : Behavior} {this : Value} {args : List Value} {w : World σ} {l : List SettleCall} :
      SettleCalls depth (b.run host this args) w l → SettleCalls (depth + 1) (perform b this args) w l
  | exhausted (b : Behavior) (this : Value) (args : List Value) (w : World σ) :
      SettleCalls 0 (perform b this args) w []

end

namespace SettleCalls

variable {host : Host σ} {config : Config} {rounds depth n : Nat}

theorem sound {x : Act σ α} {w : World σ} {calls : List SettleCall} (h : SettleCalls host config rounds n depth x w calls)
    (hn : n < w.machine.settlements.size) :
    let after := (x.run host config ⟨depth, rounds⟩ w).world
    n < after.machine.settlements.size ∧
      after.decided? n = (w.decided? n).or (calls.head?.map SettleCall.outcome) := by
  induction h with
  | settles depth fulfilled args w =>
    rw [Act.run, settleWith_apply]
    exact ⟨by rw [Result.world_ok, World.size_decide]; exact hn, World.decided?_decide hn _⟩
  | other depth fulfilled args w hne =>
    rw [Act.run, settleWith_apply]
    refine ⟨by rw [Result.world_ok, World.size_decide]; exact hn, ?_⟩
    rw [Result.world_ok, World.decided?_decide_ne hne, List.head?_nil, Option.map_none, Option.or_none]
  | opens depth w =>
    -- What is opened on the way has a number of its own.
    have pushed : (w.machine.settlements.push none)[n]? = w.machine.settlements[n]? := by
      rw [Array.getElem?_push, if_neg (Nat.ne_of_lt hn)]
    refine ⟨?_, ?_⟩
    · show n < (w.machine.settlements.push none).size
      rw [Array.size_push]
      omega
    · show (w.machine.settlements.push none)[n]?.getD none = _
      rw [pushed, List.head?_nil, Option.map_none, Option.or_none, World.decided?]
  | quiet depth w hx =>
    have same := hx (.ofHost host config ⟨depth, rounds⟩) w
    intro after
    refine ⟨by rw [show after.machine.settlements = _ from same]; exact hn, ?_⟩
    rw [World.decided?, show after.machine.settlements = _ from same, List.head?_nil, Option.map_none, Option.or_none,
      World.decided?]
  | bind _ hr _ ihx ihf =>
    rw [run_bind_of_ok hr]
    rw [hr] at ihx
    obtain ⟨there, first⟩ := ihx hn
    obtain ⟨after, rest⟩ := ihf there
    refine ⟨after, ?_⟩
    -- The first call of the whole is the first of the front part, and of the rest only where that has none.
    rw [rest, Result.world_ok] at *
    rw [first, Option.or_assoc, List.head?_append, Option.map_or]
  | stop _ hr ih =>
    rw [world_run_bind hr]
    exact ih hn
  | attempt _ ih =>
    rw [world_run_attempt]
    exact ih hn
  | perform _ ih => exact ih hn
  | exhausted => exact ⟨hn, (Option.or_none).symm⟩

end SettleCalls

/-! ## Scripts -/

/-- A closed class of actions that has all that only a host does, but for deciding settlements at will. -/
structure Scripts (P : {α : Type} → Act σ α → Prop) : Prop extends Closed P where
  withHost {α : Type} (f : σ → α × σ) : P (withHost f)
  newSymbol (description : Option String) : P (newSymbol description)
  defineAny (o : ObjectId) (k : PropertyKey) (d : Descriptor) : P (Act.define o k d)
  prevent (o : ObjectId) : P (modifyStore (·.modify o fun obj => { obj with extensible := false }))
  insert (o : ObjectId) (k : PropertyKey) (d : Descriptor) : P (modifyStore (·.modify o (·.insert k d)))

end Act

/-- The host's functions are put together from these actions, in any way: they are in each such class. -/
def Host.Scripted (host : Host σ) : Prop :=
  ∀ {P : {α : Type} → Act σ α → Prop}, Act.Scripts P → ∀ code this args, P (host code this args)

namespace Act

theorem Public.scripts : Scripts (fun {α : Type} (x : Act σ α) => Public .free x) where
  toClosed := Public.closed
  withHost := .withHost
  newSymbol := .newSymbol
  defineAny o k _ := .define o k (.inl rfl)
  prevent := .prevent
  insert o k d := .insert o k d rfl

namespace SettleCalls

variable {host : Host σ} {config : Config} {rounds depth n : Nat}

theorem scripts_of_performed (performed : ∀ b this args w, ∃ calls,
      SettleCalls host config rounds n depth (Act.perform b this args) w calls) :
    Scripts (fun {α : Type} (x : Act σ α) => ∀ w, ∃ calls, SettleCalls host config rounds n depth x w calls) where
  ret _ w := ⟨[], .quiet _ w fun _ _ => rfl⟩
  bind := by
    intro α β x f hx hf w
    obtain ⟨l, hl⟩ := hx w
    cases hr : x.run host config ⟨depth, rounds⟩ w with
    | ok a w₁ =>
      obtain ⟨l', hl'⟩ := hf a w₁
      exact ⟨l ++ l', .bind hl hr hl'⟩
    | abrupt c w₁ | fault e w₁ => exact ⟨l, .stop hl fun a w₂ h => nomatch hr.symm.trans h⟩
  raise _ w := ⟨[], .quiet _ w fun _ _ => rfl⟩
  fail _ w := ⟨[], .quiet _ w fun _ _ => rfl⟩
  attempt hx w := (hx w).imp fun _ h => .attempt h
  maxDepth w := ⟨[], .quiet _ w fun _ _ => rfl⟩
  rounds w := ⟨[], .quiet _ w fun _ _ => rfl⟩
  store w := ⟨[], .quiet _ w fun _ _ => rfl⟩
  perform := performed
  create _ w := ⟨[], .quiet _ w fun _ _ => rfl⟩
  define o k d _ w := ⟨[], .quiet _ w (.define o k d)⟩
  setProto o p w := ⟨[], .quiet _ w (.setProto o p)⟩
  listNext this w := ⟨[], .quiet _ w (.listNext this)⟩
  newSettlement w := ⟨[], .opens _ w⟩
  settlement? _ w := ⟨[], .quiet _ w fun _ _ => rfl⟩
  settleWith m fulfilled args w := by
    by_cases h : m = n
    · subst h
      exact ⟨_, .settles _ fulfilled args w⟩
    · exact ⟨[], .other _ fulfilled args w h⟩
  withHost _ w := ⟨[], .quiet _ w fun _ _ => rfl⟩
  newSymbol _ w := ⟨[], .quiet _ w fun _ _ => rfl⟩
  defineAny o k d w := ⟨[], .quiet _ w (.define o k d)⟩
  prevent _ w := ⟨[], .quiet _ w fun _ _ => rfl⟩
  insert _ _ _ w := ⟨[], .quiet _ w fun _ _ => rfl⟩

/-- So every script does, by induction on the depth to which calls may be nested. -/
theorem scripts (hh : host.Scripted) (config : Config) (rounds n depth : Nat) :
    Scripts (fun {α : Type} (x : Act σ α) => ∀ w, ∃ calls, SettleCalls host config rounds n depth x w calls) := by
  induction depth with
  | zero => exact scripts_of_performed fun b this args w => ⟨[], .exhausted b this args w⟩
  | succ depth ih =>
    refine scripts_of_performed fun b this args w => ?_
    obtain ⟨calls, hc⟩ := ih.behavior (hh ih) b this args w
    exact ⟨calls, .perform hc⟩

/-! ## Calls of functions -/

theorem bind_quiet {x : Act σ α} {f : α → Act σ β} {w : World σ} {calls : List SettleCall}
    (h : SettleCalls host config rounds n depth x w calls) (hf : ∀ a, Quiet (f a)) :
    SettleCalls host config rounds n depth (x >>= f) w calls := by
  cases hr : x.run host config ⟨depth, rounds⟩ w with
  | ok a w₁ =>
    rw [← List.append_nil calls]
    exact .bind h hr (.quiet _ w₁ (hf a))
  | abrupt c w₁ | fault e w₁ => exact .stop h fun a w₂ h => nomatch hr.symm.trans h

theorem callFunction {f this : Value} {args : List Value} {b : Behavior} {w : World σ} {calls : List SettleCall}
    (hb : behavior? w.machine.store f = some b)
    (h : SettleCalls host config rounds n depth (b.run host this args) w calls) :
    SettleCalls host config rounds n (depth + 1) (Act.callFunction f this args) w calls := by
  refine .bind (l := []) (.quiet _ w fun _ _ => rfl) rfl ?_
  simp only [hb]
  exact bind_quiet (bind_quiet (.attempt (.perform h)) fun _ _ _ => rfl) fun _ _ _ => rfl

theorem call {f this : Value} {args : List Value} {b : Behavior} {w : World σ} {calls : List SettleCall}
    (hb : behavior? w.machine.store f = some b)
    (h : SettleCalls host config rounds n depth (b.run host this args) w calls) :
    SettleCalls host config rounds n (depth + 1) (Act.call f this args) w calls := by
  refine bind_quiet (callFunction hb h) fun c => ?_
  cases c with
  | normal v | abrupt a => exact fun _ _ => rfl

end SettleCalls
end Act

/-! ## Settling -/

namespace World

def nextSettlement (w : World σ) : Nat := w.machine.settlements.size

def settler (w : World σ) (fulfilled : Bool) : Value :=
  .object ⟨if fulfilled then w.machine.store.size else w.machine.store.size + 1⟩

/-- The world in which `then` is called: with a new settlement, and the two functions. -/
def opened (w : World σ) : World σ :=
  let settler (fulfilled : Bool) : Object := .ofFunction ⟨"", 1, .settle w.nextSettlement fulfilled⟩
  (({ w with machine := { w.machine with settlements := w.machine.settlements.push none } } : World σ).add
    (settler true)).add (settler false)

theorem behavior?_opened (w : World σ) (fulfilled : Bool) :
    Act.behavior? w.opened.machine.store (w.settler fulfilled) = some (.settle w.nextSettlement fulfilled) := by
  have made (s : Store) (f : Function) : Act.behavior? (s.add (.ofFunction f)) (.object s.fresh) = some f.behavior := by
    have read : (s.add (.ofFunction f)).get? s.fresh = _ := Store.get?_add s _ s.fresh
    rw [if_pos rfl] at read
    simp only [Act.behavior?, Value.object?, Option.bind_some, read]
    rfl
  cases fulfilled with
  | true => exact Store.behavior?_add_of_some (made w.machine.store _) _
  | false =>
    have last := made (w.machine.store.add (.ofFunction ⟨"", 1, .settle w.nextSettlement true⟩))
      ⟨"", 1, .settle w.nextSettlement false⟩
    rw [Store.fresh, Store.size_add] at last
    exact last

theorem decided?_opened (w : World σ) : w.opened.decided? w.nextSettlement = none := by
  show (w.machine.settlements.push none)[w.machine.settlements.size]?.getD none = none
  rw [Array.getElem?_push_size]
  rfl

theorem nextSettlement_opened (w : World σ) : w.opened.nextSettlement = w.nextSettlement + 1 := Array.size_push _

end World

theorem Machine.Step.settlements_le {m m' : Machine} (h : Machine.Step R m m') :
    m.settlements.size ≤ m'.settlements.size := by
  cases h with
  | settlement =>
    show m.settlements.size ≤ (m.settlements.push none).size
    rw [Array.size_push]
    exact Nat.le_succ _
  | decide => exact Nat.le_of_eq Array.size_modify.symm
  | create | define | reparent | advance | prevent | insert | symbol => exact Nat.le_refl _

theorem Machine.Run.settlements_le {m m' : Machine} (h : Machine.Run R m m') :
    m.settlements.size ≤ m'.settlements.size := by
  induction h with
  | refl => exact Nat.le_refl _
  | tail _ hs ih => exact Nat.le_trans ih hs.settlements_le

namespace Act

def callThen (thenable method : Value) (w : World σ) : Act σ Completion :=
  callFunction method thenable [w.settler true, w.settler false]

/-- What settling ends with: the settlement, else a throw of `then`, else an error. -/
def conclude (decided : Option Completion) (called : Completion) : Act σ Value :=
  match decided, called with
  | some outcome, _ => ofCompletion outcome
  | none, .abrupt (.thrown v) => raise (.thrown v)
  | none, _ => throwCause .unsettled

theorem conclude_ends (decided : Option Completion) (called : Completion) (env : Env σ) (w : World σ) :
    (conclude decided called env w).world.host = w.host ∧ ∀ e w', conclude decided called env w ≠ .fault e w' := by
  cases decided with
  | some outcome => cases outcome <;> exact ⟨rfl, fun _ _ h => by cases h⟩
  | none =>
    cases called with
    | normal v => exact ⟨rfl, fun _ _ h => by cases h⟩
    | abrupt a => cases a <;> exact ⟨rfl, fun _ _ h => by cases h⟩

theorem settle_apply (thenable method : Value) (env : Env σ) (w : World σ) :
    settle thenable method env w = match callThen thenable method w env w.opened with
      | .ok called w₁ => conclude (w₁.decided? w.nextSettlement) called env w₁
      | .abrupt c w₁ => .abrupt c w₁
      | .fault e w₁ => .fault e w₁ := by
  have second : (w.machine.store.add (.ofFunction ⟨"", 1, .settle w.nextSettlement true⟩)).fresh =
      ⟨w.machine.store.size + 1⟩ := congrArg ObjectId.mk (Store.size_add _ _)
  change (do
    let called ← callFunction method thenable [.object w.machine.store.fresh,
      .object (w.machine.store.add (.ofFunction ⟨"", 1, .settle w.nextSettlement true⟩)).fresh]
    let decided ← settlement? w.nextSettlement
    conclude decided called : Act σ Value) env w.opened = _
  rw [second, bind_apply]
  have same : callFunction method thenable [.object w.machine.store.fresh, .object ⟨w.machine.store.size + 1⟩] =
    (callThen thenable method w : Act σ Completion) := rfl
  rw [same]
  cases callThen thenable method w env w.opened <;> rfl

/-! ## The law of settling -/

section
variable (host : Host σ) (config : Config) (depth rounds : Nat) (thenable method : Value) (w : World σ)

/-- The calls of the two functions that `then` makes, itself or through other code. -/
def ThenCalls (calls : List SettleCall) : Prop :=
  SettleCalls host config rounds w.nextSettlement depth (callThen thenable method w) w.opened calls

def ThenEnds (called : Completion) (w₁ : World σ) : Prop :=
  (callThen thenable method w).run host config ⟨depth, rounds⟩ w.opened = .ok called w₁

/-- What settling comes to, by the calls of the two functions and by how `then` ends. -/
structure SettlementLaw : Prop where
  some_calls : ∃ calls, ThenCalls host config depth rounds thenable method w calls
  settlers (fulfilled : Bool) :
    behavior? w.opened.machine.store (w.settler fulfilled) = some (.settle w.nextSettlement fulfilled)
  first {c : SettleCall} {rest : List SettleCall} {called : Completion} {w₁ : World σ} :
    ThenCalls host config depth rounds thenable method w (c :: rest) →
    ThenEnds host config depth rounds thenable method w called w₁ →
    (settle thenable method).run host config ⟨depth, rounds⟩ w =
      if c.fulfilled then .ok c.argument w₁ else .abrupt (.thrown c.argument) w₁
  thrown {v : Value} {w₁ : World σ} : ThenCalls host config depth rounds thenable method w [] →
    ThenEnds host config depth rounds thenable method w (.abrupt (.thrown v)) w₁ →
    (settle thenable method).run host config ⟨depth, rounds⟩ w = .abrupt (.thrown v) w₁
  unsettled {called : Completion} {w₁ : World σ} : ThenCalls host config depth rounds thenable method w [] →
    ThenEnds host config depth rounds thenable method w called w₁ → (∀ v, called ≠ .abrupt (.thrown v)) →
    ∃ e w₂, w₁.Raises .typeError .unsettled e w₂ ∧
      (settle thenable method).run host config ⟨depth, rounds⟩ w = .abrupt (.thrown (.object e)) w₂
  brokenOff : (∃ called w₁, ThenEnds host config depth rounds thenable method w called w₁) ∨
    ∃ e w₁, (settle thenable method).run host config ⟨depth, rounds⟩ w = .fault e w₁
  /-- A call of one of the functions, at any time after `then`, changes nothing but this settlement,
      and is a call for no other. -/
  late {called : Completion} {w₁ w' : World σ} : ThenEnds host config depth rounds thenable method w called w₁ →
    Machine.Run .free w₁.machine w'.machine → ∀ fulfilled this args depth' rounds',
    let call : Act σ Value := call (w.settler fulfilled) this args
    let after := w'.decide w.nextSettlement (SettleCall.mk fulfilled args).outcome
    call.run host config ⟨depth' + 1, rounds'⟩ w' = .ok .undefined after ∧
      (∀ outcome, w'.decided? w.nextSettlement = some outcome → after = w') ∧
      ∀ m, m ≠ w.nextSettlement → after.decided? m = w'.decided? m ∧
        SettleCalls host config rounds' m (depth' + 1) call w' []
  number {w' : World σ} : Machine.Run .free w.opened.machine w'.machine → w.nextSettlement < w'.nextSettlement

end

/-- The first of the calls that a `then` makes settles, whatever comes after it. -/
theorem settlement_law {host : Host σ} (hh : host.Scripted) (config : Config) (depth rounds : Nat)
    (thenable method : Value) (w : World σ) : SettlementLaw host config depth rounds thenable method w := by
  have applied := settle_apply thenable method (.ofHost host config ⟨depth, rounds⟩) w
  have concluded {calls : List SettleCall} {called : Completion} {w₁ : World σ}
      (hc : ThenCalls host config depth rounds thenable method w calls)
      (ht : ThenEnds host config depth rounds thenable method w called w₁) :
      (settle thenable method).run host config ⟨depth, rounds⟩ w =
        conclude (calls.head?.map SettleCall.outcome) called (.ofHost host config ⟨depth, rounds⟩) w₁ := by
    have number : w.nextSettlement < w.opened.machine.settlements.size := by
      rw [show w.opened.machine.settlements.size = _ from w.nextSettlement_opened]
      exact Nat.lt_succ_self _
    have decided : w₁.decided? w.nextSettlement = calls.head?.map SettleCall.outcome := by
      obtain ⟨-, sound⟩ := hc.sound number
      rw [ht, w.decided?_opened, Option.none_or] at sound
      exact sound
    have ends : callThen thenable method w (.ofHost host config ⟨depth, rounds⟩) w.opened = .ok called w₁ := ht
    rw [ends] at applied
    rw [← decided]
    exact applied
  have scripted := SettleCalls.scripts hh config rounds w.nextSettlement depth
  constructor
  · exact scripted.callFunction method thenable _ w.opened
  · exact w.behavior?_opened
  · intro c rest called w₁ hc ht
    rw [concluded hc ht, List.head?_cons, Option.map_some, SettleCall.outcome]
    cases c.fulfilled <;> rfl
  · intro v w₁ hc ht
    exact concluded hc ht
  · intro called w₁ hc ht hn
    refine ⟨_, _, w₁.raises_withError .unsettled, ?_⟩
    rw [concluded hc ht]
    cases called with
    | normal v => rfl
    | abrupt a =>
      cases a with
      | thrown v => exact absurd rfl (hn v)
      | returned | broken | continued => rfl
  · cases ht : callThen thenable method w (.ofHost host config ⟨depth, rounds⟩) w.opened with
    | ok called w₁ => exact Or.inl ⟨called, w₁, ht⟩
    | abrupt a w₁ => exact absurd ht (callFunction_ne_abrupt _ _ _ _ _ _ _)
    | fault e w₁ =>
      rw [ht] at applied
      exact Or.inr ⟨e, w₁, applied⟩
  · intro called w₁ w' ht run fulfilled this args depth' rounds' call after
    have ran : Machine.Run .free w.opened.machine w₁.machine := by
      have steps := run_steps (x := callThen thenable method w) (hh Public.scripts)
        (Public.scripts.callFunction method thenable _) config ⟨depth, rounds⟩ w.opened
      rw [show Act.run _ host config ⟨depth, rounds⟩ w.opened = _ from ht] at steps
      exact steps
    have function : behavior? w'.machine.store (w.settler fulfilled) = some (.settle w.nextSettlement fulfilled) :=
      Machine.Run.behavior? (ran.trans run) (w.behavior?_opened fulfilled)
    refine ⟨?_, fun _ hd => World.decide_of_decided hd _, fun m hm => ⟨World.decided?_decide_ne hm.symm _, ?_⟩⟩
    · show Act.call _ _ _ _ w' = _
      rw [call_of_some function]
      rfl
    · exact SettleCalls.call function (.other _ _ _ _ hm.symm)
  · intro w' run
    have more : w.opened.nextSettlement ≤ w'.nextSettlement := run.settlements_le
    rw [w.nextSettlement_opened] at more
    exact more

/-- A `then` that resolves with null, rejects with nothing and throws: null is what it settles to. -/
theorem a_resolution_before_a_rejection_and_a_throw :
    let host : Host Unit := fun _ _ args => do
      let _ ← call (args[0]?.getD .undefined) .undefined [.null]
      let _ ← call (args[1]?.getD .undefined) .undefined []
      raise (.thrown (.boolean true))
    let w : World Unit := (⟨{}, ()⟩ : World Unit).add (.ofFunction ⟨"then", 2, .host 0⟩)
    host.Scripted ∧ ThenCalls host ⟨8⟩ 3 64 .null (.object ⟨25⟩) w [⟨true, [.null]⟩, ⟨false, []⟩] ∧
      ∃ w₁, ThenEnds host ⟨8⟩ 3 64 .null (.object ⟨25⟩) w (.abrupt (.thrown (.boolean true))) w₁ ∧
        (settle .null (.object ⟨25⟩)).run host ⟨8⟩ ⟨3, 64⟩ w = .ok .null w₁ := by
  intro host w
  have scripted : host.Scripted :=
    fun scripts _ _ _ => scripts.bind (scripts.call _ _ _) fun _ => scripts.bind (scripts.call _ _ _) fun _ => scripts.raise _
  have law := settlement_law scripted ⟨8⟩ 3 64 .null (.object ⟨25⟩) w
  have calls : ThenCalls host ⟨8⟩ 3 64 .null (.object ⟨25⟩) w ([⟨true, [.null]⟩] ++ [⟨false, []⟩]) :=
    .callFunction rfl (.bind (.call (law.settlers true) (.settles _ _ _ _)) rfl
      (.bind_quiet (.call rfl (.settles _ _ _ _)) fun _ _ _ => rfl))
  have ends : ∃ w₁, ThenEnds host ⟨8⟩ 3 64 .null (.object ⟨25⟩) w (.abrupt (.thrown (.boolean true))) w₁ := ⟨_, rfl⟩
  obtain ⟨w₁, ht⟩ := ends
  exact ⟨scripted, calls, w₁, ht, law.first calls ht⟩

end Act
end EcmaObjects
