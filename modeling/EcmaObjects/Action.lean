/-
  EcmaObjects.Action — computations over a store that may end abruptly.

  An action reads an environment and takes a world to a result. The world is the
  machine (store, symbol counter, settlements) and whatever state the host keeps. A
  result is a value, an abrupt completion to propagate, or a fault; each comes with
  the world as it is then, so nothing an action did is undone by how it ended.

  Running native code is the environment's part (`Env.perform`): every operation is
  defined, and can be reasoned about, for an arbitrary meaning of the functions that
  it calls. `Evaluation` supplies the real one.
-/

import EcmaObjects.Config

namespace EcmaObjects

structure Machine where
  store : Store := Realm.store
  nextSymbol : Nat := Symbol.firstUser
  /-- How each settlement was decided, if it was. -/
  settlements : Array (Option Completion) := #[]
  deriving DecidableEq, Repr

structure World (σ : Type) where
  machine : Machine
  host : σ

inductive Result (σ α : Type) where
  | ok (a : α) (w : World σ)
  | abrupt (c : Abrupt) (w : World σ)
  | fault (f : Fault) (w : World σ)

structure Env (σ : Type) where
  maxDepth : Nat
  /-- Rounds that a loop may take which the language itself does not bound. -/
  rounds : Nat
  perform : Behavior → Value → List Value → World σ → Result σ Value

def Act (σ α : Type) : Type := Env σ → World σ → Result σ α

namespace Act

variable {σ α β : Type}

/-! ## Sequencing -/

def ret (a : α) : Act σ α := fun _ w => .ok a w

def bind (x : Act σ α) (f : α → Act σ β) : Act σ β := fun env w =>
  match x env w with
  | .ok a w => f a env w
  | .abrupt c w => .abrupt c w
  | .fault e w => .fault e w

instance : Monad (Act σ) where
  pure := ret
  bind := bind

/-- Ends abruptly. -/
def raise (c : Abrupt) : Act σ α := fun _ w => .abrupt c w

/-- Breaks off with a fault, which nothing catches. -/
def fail (f : Fault) : Act σ α := fun _ w => .fault f w

/-- Runs an action and hands on how it ended, abruptly or not. -/
def attempt (x : Act σ α) : Act σ (Except Abrupt α) := fun env w =>
  match x env w with
  | .ok a w => .ok (.ok a) w
  | .abrupt c w => .ok (.error c) w
  | .fault e w => .fault e w

/-- Propagates an abrupt end, takes the value of a normal one. -/
def ofExcept : Except Abrupt α → Act σ α
  | .ok a => pure a
  | .error c => raise c

/-- The completion of an action: never itself abrupt. -/
def completion (x : Act σ Value) : Act σ Completion := do return .ofExcept (← attempt x)

/-- The value of a completion, or its abrupt end propagated. -/
def ofCompletion : Completion → Act σ Value
  | .normal v => pure v
  | .abrupt c => raise c

/-- The value of a completion that cannot be abrupt; a fault if it is. -/
def ofNormal : Completion → Act σ Value
  | .normal v => pure v
  | .abrupt c => fail (.notNormal c)

/-- An action that cannot end abruptly; a fault if it does. -/
def infallible (x : Act σ α) : Act σ α := do
  match ← attempt x with
  | .ok a => return a
  | .error c => fail (.notNormal c)

/-! ## The environment and the world -/

def maxDepth : Act σ Nat := fun env w => .ok env.maxDepth w

def rounds : Act σ Nat := fun env w => .ok env.rounds w

/-- Runs native code. -/
def perform (b : Behavior) (this : Value) (args : List Value) : Act σ Value := fun env w => env.perform b this args w

def store : Act σ Store := fun _ w => .ok w.machine.store w

def modifyMachine (f : Machine → Machine) : Act σ Unit := fun _ w => .ok () { w with machine := f w.machine }

def modifyStore (f : Store → Store) : Act σ Unit := modifyMachine fun m => { m with store := f m.store }

def hostState : Act σ σ := fun _ w => .ok w.host w

/-- Reads and updates the host's state in one go. -/
def withHost (f : σ → α × σ) : Act σ α := fun _ w =>
  let (a, host) := f w.host
  .ok a { w with host }

def modifyHost (f : σ → σ) : Act σ Unit := withHost fun s => ((), f s)

/-- Adds an object to the store. -/
def create (o : Object) : Act σ ObjectId := fun _ w =>
  .ok w.machine.store.fresh { w with machine := { w.machine with store := w.machine.store.add o } }

/-- Numbers a new symbol. -/
def newSymbol (description : Option String) : Act σ Value := fun _ w =>
  .ok (.symbol ⟨w.machine.nextSymbol, description.map Text.ofString⟩)
    { w with machine := { w.machine with nextSymbol := w.machine.nextSymbol + 1 } }

/-! ## Errors -/

def newError (t : ErrorType) (message : String) : Act σ Value := do return .object (← create (.ofError t.prototype message))

/-- Throws a fresh error object. -/
def throwCause (c : Cause) : Act σ α := do raise (.thrown (← newError c.errorType c.message))

/-- The limit on depth is exceeded. -/
def tooDeep : Act σ α := throwCause .chainTooDeep

end Act

end EcmaObjects
