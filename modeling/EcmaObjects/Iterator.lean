/-
  EcmaObjects.Iterator — stepping iterators and closing them.

  An iterator is used through its record. Stepping calls `next` and reads the result's
  `done` and `value`; the end of the sequence and each failure on the way mark the record
  done. Closing calls `return` and merges how that ended with why iteration ends
  (`mergeClose`): an abrupt reason prevails, and a failure to close shows only when the
  reason was normal.
-/

import EcmaObjects.Conversion

namespace EcmaObjects

/-- The record once it is done: at the end, or after a failure. -/
def IteratorRecord.ended (r : IteratorRecord) : IteratorRecord := { r with done := true }

namespace Act

variable {σ : Type}

/-! ## Results -/

/-- A fresh result object of an iterator. -/
def iterResult (v : Value) (done : Bool) : Act σ ObjectId := do
  let o ← create { proto := some Intrinsic.objectPrototype.object }
  let _ ← createData o "value" v
  let _ ← createData o "done" (.boolean done)
  return o

def resultDone (result : ObjectId) : Act σ Bool := return (← get result "done" (.object result)).toBoolean

def resultValue (result : ObjectId) : Act σ Value := get result "value" (.object result)

/-! ## Steps -/

/-- Calls `next`, with the argument if there is one. -/
def next (r : IteratorRecord) (arg : Option Value) : Act σ ObjectId := do
  match ← call r.next (.object r.iterator) arg.toList with
  | .object o => return o
  | _ => throwCause .resultNotObject

/-- The next result object, or none at the end; with the record that the step leaves. -/
def step (r : IteratorRecord) : Act σ (Except Abrupt (Option ObjectId) × IteratorRecord) := do
  match ← attempt (next r none) with
  | .error c => return (.error c, r.ended)
  | .ok result =>
    match ← attempt (resultDone result) with
    | .error c => return (.error c, r.ended)
    | .ok true => return (.ok none, r.ended)
    | .ok false => return (.ok (some result), r)

/-- The next value, or none at the end; with the record that the step leaves. -/
def stepValue (r : IteratorRecord) : Act σ (Except Abrupt (Option Value) × IteratorRecord) := do
  match ← step r with
  | (.error c, r) => return (.error c, r)
  | (.ok none, r) => return (.ok none, r)
  | (.ok (some result), r) =>
    match ← attempt (resultValue result) with
    | .error c => return (.error c, r.ended)
    | .ok v => return (.ok (some v), r)

/-! ## Acquiring an iterator -/

/-- The record of the iterator that a method makes for a value. Whether `next` can be
    called shows when it is. -/
def acquireWith (v method : Value) : Act σ IteratorRecord := do
  match ← call method v [] with
  | .object o => return { iterator := o, next := ← get o "next" (.object o) }
  | _ => throwCause .iteratorNotObject

def acquire (v : Value) : Act σ IteratorRecord := do
  match ← getMethod v WellKnown.iterator with
  | some method => acquireWith v method
  | none => throwCause .notIterable

/-! ## Closing -/

/-- The completion of a close, of the reason for it and the completion of `return`. -/
def mergeClose (reason inner : Completion) : Act σ Completion :=
  match reason, inner with
  | .abrupt _, _ => return reason
  | .normal _, .abrupt _ => return inner
  | .normal _, .normal v => if v.isObject then return reason else completion (throwCause .returnNotObject)

def close (r : IteratorRecord) (reason : Completion) : Act σ Completion := do
  match ← attempt (getMethod (.object r.iterator) "return") with
  | .ok none => return reason
  | .ok (some f) => mergeClose reason (← callFunction f (.object r.iterator) [])
  | .error a => mergeClose reason (.abrupt a)

/-! ## Draining -/

/-- The values up to the end, after those already collected, newest first. -/
def drain (r : IteratorRecord) : Nat → List Value → Act σ (List Value)
  | 0, _ => fail .exhausted
  | n + 1, collected => do
    let (outcome, r) ← stepValue r
    match ← ofExcept outcome with
    | some v => drain r n (v :: collected)
    | none => return collected.reverse

/-- All values of an iterable, by the given method or by its own. -/
def iterableToList (v : Value) (method : Option Value) : Act σ (List Value) := do
  let r ← match method with
    | some m => acquireWith v m
    | none => acquire v
  drain r (← rounds) []

end Act

end EcmaObjects
