/-
  EcmaObjects.Iterator.Async — async iteration: the adapter over a sync iterator, and
  the close that waits.

  A value without an async method is iterated through an adapter, which wraps a sync
  record and is then acquired like any async iterable. That may fall back again, if
  the adapter finds no async method either: the language sets no bound here, so the
  environment's rounds do (`acquireAsync`).

  An async close calls `return` and stops there if the result has to be awaited
  (`PendingClose`). Resuming needs the reason for the close and the outcome of the
  wait, and nothing else.
-/

import EcmaObjects.Iterator

namespace EcmaObjects

inductive IterationHint where
  | sync
  | async
  deriving DecidableEq, Repr

/-- A close that waits for the value that `return` gave. -/
structure PendingClose where
  reason : Completion
  awaited : Value
  deriving DecidableEq, Repr

inductive AsyncClose where
  | complete (c : Completion)
  | awaiting (p : PendingClose)
  deriving DecidableEq, Repr

namespace Act

variable {σ : Type}

/-! ## Acquiring -/

def newAdapter (sync : IteratorRecord) : Act σ ObjectId :=
  create { proto := some Intrinsic.asyncFromSyncIteratorPrototype.object, iteration := some (.adapter sync) }

/-- The iterator by the async method, else by the sync method behind an adapter; at most
    `n` adapters are built on one another. -/
def acquireAsync : Nat → Value → Act σ IteratorRecord
  | n, v => do
    match ← getMethod v WellKnown.asyncIterator with
    | some method => acquireWith v method
    | none => do
      match ← getMethod v WellKnown.iterator with
      | none => throwCause .notAsyncIterable
      | some method => do
        let adapter ← newAdapter (← acquireWith v method)
        match n with
        | 0 => fail .exhausted
        | n + 1 => acquireAsync n (.object adapter)

/-- An adapter over a sync record, acquired. -/
def adapt (sync : IteratorRecord) : Act σ IteratorRecord := do
  let adapter ← newAdapter sync
  acquireAsync (← rounds) (.object adapter)

/-- The iterator of a value: by the given method, or by the method that the hint asks for. -/
def getIterator (v : Value) (hint : IterationHint) (method : Option Value) : Act σ IteratorRecord := do
  match method, hint with
  | some m, _ => acquireWith v m
  | none, .sync => acquire v
  | none, .async => acquireAsync (← rounds) v

/-! ## The adapter's methods -/

/-- The sync record that an adapter wraps. -/
def wrappedRecord (this : Value) : Act σ IteratorRecord := do
  match (this.object?.bind (← store).get?).bind (·.iteration) with
  | some (.adapter sync) => return sync
  | _ => throwCause .notAdapter

/-- The result of the sync iterator as a fresh result of the adapter. -/
def repack (result : ObjectId) : Act σ Value := do
  let done ← resultDone result
  return .object (← iterResult (← resultValue result) done)

def adapterNext (this : Value) (args : List Value) : Act σ Value := do
  let sync ← wrappedRecord this
  repack (← next sync args.head?)

/-- Calls a method of the sync iterator with at most one argument and repacks its result. -/
def forward (sync : IteratorRecord) (method : Value) (args : List Value) (notObject : Cause) : Act σ Value := do
  match ← call method (.object sync.iterator) (args.take 1) with
  | .object result => repack result
  | _ => throwCause notObject

def adapterReturn (this : Value) (args : List Value) : Act σ Value := do
  let sync ← wrappedRecord this
  match ← getMethod (.object sync.iterator) "return" with
  | some method => forward sync method args .returnNotObject
  | none => return .object (← iterResult (args.head?.getD .undefined) true)

/-- Without a `throw` method the sync iterator is closed, and the call fails. -/
def adapterThrow (this : Value) (args : List Value) : Act σ Value := do
  let sync ← wrappedRecord this
  match ← getMethod (.object sync.iterator) "throw" with
  | some method => forward sync method args .throwNotObject
  | none => do
    match ← close sync (.normal .undefined) with
    | .abrupt a => raise a
    | .normal _ => throwCause .noThrowMethod

/-! ## Closing -/

/-- A close after the call of `return`: what it gave has to be awaited, unless it failed. -/
def afterReturn (reason : Completion) : Completion → Act σ AsyncClose
  | .normal awaited => return .awaiting ⟨reason, awaited⟩
  | .abrupt a => return .complete (← mergeClose reason (.abrupt a))

/-- Closes up to the wait for what `return` gave. -/
def closeAsync (r : IteratorRecord) (reason : Completion) : Act σ AsyncClose := do
  match ← attempt (getMethod (.object r.iterator) "return") with
  | .ok none => return .complete reason
  | .ok (some f) => afterReturn reason (← callFunction f (.object r.iterator) [])
  | .error a => afterReturn reason (.abrupt a)

/-- Ends a close when the wait has ended with `outcome`. -/
def resume (p : PendingClose) (outcome : Completion) : Act σ Completion := mergeClose p.reason outcome

/-- Closes to the end; `await` settles the value that has to be awaited. -/
def closeAsyncWith (await : Value → Act σ Completion) (r : IteratorRecord) (reason : Completion) :
    Act σ Completion := do
  match ← closeAsync r reason with
  | .complete c => return c
  | .awaiting p => resume p (← await p.awaited)

end Act

end EcmaObjects
