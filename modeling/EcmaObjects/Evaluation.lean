/-
  EcmaObjects.Evaluation — what native functions do, and running actions.

  `Behavior.run` gives every behavior its meaning over an environment; host code means
  what the host says (`Host`). `performAt` ties the knot: a call made inside a call runs
  with one level less, and at level zero the evaluation gives up. `Act.run` starts an
  action with a full budget.
-/

import EcmaObjects.Await
import EcmaObjects.Iterator.Async
import EcmaObjects.ObjectMethods

namespace EcmaObjects

variable {σ α : Type}

/-- The code that a host attaches to function objects, by number. -/
abbrev Host (σ : Type) : Type := Nat → Value → List Value → Act σ Value

def Builtin.run (b : Builtin) (this : Value) (args : List Value) : Act σ Value :=
  match b with
  | .nothing => return .undefined
  | .self => return this
  | .hasOwnProperty => Act.hasOwnProperty this args
  | .isPrototypeOf => Act.isPrototypeOf this args
  | .propertyIsEnumerable => Act.propertyIsEnumerable this args
  | .toLocaleString => Act.toLocaleString this
  | .toString => Act.toStringTag this
  | .valueOf => Act.objectValueOf this
  | .listNext => Act.listNext this
  | .adapterNext => Act.adapterNext this args
  | .adapterReturn => Act.adapterReturn this args
  | .adapterThrow => Act.adapterThrow this args

def Behavior.run (host : Host σ) (b : Behavior) (this : Value) (args : List Value) : Act σ Value :=
  match b with
  | .builtin m => m.run this args
  | .settle n fulfilled => Act.settleWith n fulfilled args
  | .host code => host code this args

/-- How much an evaluation may do that the language does not bound. -/
structure Budget where
  /-- Calls nested in one another. -/
  depth : Nat
  rounds : Nat

/-- Runs native code, with at most `depth` calls nested in it. -/
def performAt (host : Host σ) (config : Config) (rounds : Nat) :
    Nat → Behavior → Value → List Value → World σ → Result σ Value
  | 0, _, _, _, w => .fault .exhausted w
  | depth + 1, b, this, args, w =>
    b.run host this args ⟨config.maxDepth, rounds, performAt host config rounds depth⟩ w

def Env.ofHost (host : Host σ) (config : Config) (budget : Budget) : Env σ :=
  ⟨config.maxDepth, budget.rounds, performAt host config budget.rounds budget.depth⟩

def Act.run (x : Act σ α) (host : Host σ) (config : Config) (budget : Budget) (w : World σ) : Result σ α :=
  x (.ofHost host config budget) w

end EcmaObjects
