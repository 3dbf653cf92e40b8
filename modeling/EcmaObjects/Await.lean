/-
  EcmaObjects.Await — awaiting a value on the spot.

  A thenable is settled by calling its `then` with two fresh functions; the first call
  of either decides (`decideOnce`), later ones change nothing. A resolution that is again a
  thenable is awaited in turn, up to the depth limit. `await` ends normally or with a
  throw, and with nothing else of its own.
-/

import EcmaObjects.Iterator.List

namespace EcmaObjects

namespace Act

variable {σ : Type}

/-! ## Settlements -/

/-- A new settlement, not decided yet. -/
def newSettlement : Act σ Nat := fun _ w =>
  .ok w.machine.settlements.size { w with machine := { w.machine with settlements := w.machine.settlements.push none } }

/-- How a settlement was decided, if it was. -/
def settlement? (n : Nat) : Act σ (Option Completion) := fun _ w => .ok (w.machine.settlements[n]?.getD none) w

/-- Decides a settlement that is not decided yet. -/
def decideOnce (n : Nat) (outcome : Completion) : Act σ Unit :=
  modifyMachine fun m => { m with settlements := m.settlements.modify n (· <|> some outcome) }

/-- What the functions handed to `then` do: they settle with their first argument. -/
def settleWith (n : Nat) (fulfilled : Bool) (args : List Value) : Act σ Value := do
  let v := args.head?.getD .undefined
  decideOnce n (if fulfilled then .normal v else .abrupt (.thrown v))
  return .undefined

/-! ## Awaiting -/

/-- Calls `then` and takes the first settlement. Without one, a throw of `then` itself
    is the outcome, and any other end is an error. -/
def settle (thenable method : Value) : Act σ Value := do
  let n ← newSettlement
  let resolve ← newFunction ⟨"", 1, .settle n true⟩
  let reject ← newFunction ⟨"", 1, .settle n false⟩
  let called ← callFunction method thenable [resolve, reject]
  match ← settlement? n, called with
  | some outcome, _ => ofCompletion outcome
  | none, .abrupt (.thrown v) => raise (.thrown v)
  | none, _ => throwCause .unsettled

/-- The value at the end of a chain of at most `n` resolutions. -/
def resolution : Nat → Value → Act σ Value
  | n, v => do
    if !v.isObject then return v
    else
      let method ← getV v "then"
      if !(← isCallable method) then return v
      else
        let resolved ← settle v method
        if resolved.strictEq v then throwCause .settledWithItself
        else
          match n with
          | 0 => tooDeep
          | n + 1 => resolution n resolved

def await (v : Value) : Act σ Completion := do completion (resolution (← maxDepth) v)

end Act

end EcmaObjects
