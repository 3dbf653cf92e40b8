/-
  EcmaObjects.Proofs.Operations — every operation of the library is put together in the same ways.

  All operations come from those of the machine by sequencing, catching and raising. A
  class of actions that contains the first and is closed under the second (`Act.Closed`)
  therefore contains each operation, up to the functions that every store starts with
  (`Closed.builtin`) and all native code of a host whose own functions are in the class
  (`Closed.behavior`).
-/

import EcmaObjects.Evaluation
import EcmaObjects.Proofs.Step

namespace EcmaObjects

variable {σ α β : Type}

namespace Act

/-- A class of actions that is closed under the ways in which the library makes them. Definitions
    in it ask for one kind of property, and settlements are decided as `then` decides them. -/
structure Closed (P : {α : Type} → Act σ α → Prop) : Prop where
  ret {α : Type} (a : α) : P (pure a : Act σ α)
  bind {α β : Type} {x : Act σ α} {f : α → Act σ β} : P x → (∀ a, P (f a)) → P (x >>= f)
  raise {α : Type} (c : Abrupt) : P (raise c : Act σ α)
  fail {α : Type} (f : Fault) : P (fail f : Act σ α)
  attempt {α : Type} {x : Act σ α} : P x → P (attempt x)
  maxDepth : P maxDepth
  rounds : P rounds
  store : P store
  perform (b : Behavior) (this : Value) (args : List Value) : P (perform b this args)
  create {obj : Object} : obj.Born → P (create obj)
  define (o : ObjectId) (k : PropertyKey) {d : Descriptor} : (d.isData && d.isAccessor) = false → P (define o k d)
  setProto (o : ObjectId) (p : Option ObjectId) : P (setProto o p)
  listNext (this : Value) : P (listNext this)
  newSettlement : P newSettlement
  settlement? (n : Nat) : P (settlement? n)
  settleWith (n : Nat) (fulfilled : Bool) (args : List Value) : P (settleWith n fulfilled args)

namespace Closed

variable {P : {α : Type} → Act σ α → Prop} (h : Closed P)

include h

theorem ofExcept (r : Except Abrupt α) : P (Act.ofExcept r : Act σ α) := by
  cases r with
  | ok a => exact h.ret a
  | error c => exact h.raise c

theorem ofCompletion (c : Completion) : P (Act.ofCompletion c : Act σ Value) := by
  cases c with
  | normal v => exact h.ret v
  | abrupt a => exact h.raise a

theorem completion {x : Act σ Value} (hx : P x) : P (completion x) :=
  h.bind (h.attempt hx) fun _ => h.ret _

/-- To break off is a way to end, so it does not matter here that none of these operations does. -/
theorem infallible {x : Act σ α} (hx : P x) : P (infallible x) := by
  refine h.bind (h.attempt hx) fun outcome => ?_
  split
  · exact h.ret _
  · exact h.fail _

/-- Error objects, like functions, are among those that may be made. -/
theorem newError (t : ErrorType) (message : String) : P (newError t message : Act σ Value) :=
  h.bind (h.create (Object.born_ofError _ _)) fun _ => h.ret _

theorem throwCause (c : Cause) : P (throwCause c : Act σ α) :=
  h.bind (h.newError _ _) fun _ => h.raise _

theorem newFunction (f : Function) : P (newFunction f : Act σ Value) :=
  h.bind (h.create (Object.born_ofFunction f)) fun _ => h.ret _

/-! ## Calls and properties -/

theorem callFunction (f this : Value) (args : List Value) : P (callFunction f this args : Act σ Completion) := by
  refine h.bind h.store fun s => ?_
  split
  · exact h.completion (h.throwCause _)
  · exact h.bind (h.completion (h.perform _ _ _)) fun _ => h.ret _

theorem call (f this : Value) (args : List Value) : P (call f this args : Act σ Value) :=
  h.bind (h.callFunction f this args) fun c => h.ofCompletion c

theorem isCallable (v : Value) : P (isCallable v : Act σ Bool) := h.bind h.store fun _ => h.ret _

theorem getOwn (o : ObjectId) (k : PropertyKey) : P (getOwn o k : Act σ (Option Descriptor)) :=
  h.bind h.store fun _ => h.ret _

theorem hasOwn (o : ObjectId) (k : PropertyKey) : P (hasOwn o k : Act σ Bool) := h.bind h.store fun _ => h.ret _

/-- A value that is stored asks for data, and so for one kind of property. -/
theorem createData (o : ObjectId) (k : PropertyKey) (v : Value) : P (createData o k v : Act σ Bool) :=
  h.define o k rfl

theorem getProto (o : ObjectId) : P (getProto o : Act σ (Option ObjectId)) := h.bind h.store fun _ => h.ret _

theorem valueOf (d : Descriptor) (receiver : Value) : P (valueOf d receiver : Act σ Value) := by
  unfold Act.valueOf
  split
  · split
    · exact h.ret _
    · exact h.call _ _ _
  · exact h.ret _

theorem get (o : ObjectId) (k : PropertyKey) (receiver : Value) : P (get o k receiver : Act σ Value) := by
  refine h.bind h.store fun s => h.bind h.maxDepth fun n => ?_
  split
  · exact h.valueOf _ _
  · exact h.ret _
  · exact h.throwCause _

theorem assign (receiver : Value) (k : PropertyKey) (v : Value) : P (assign receiver k v : Act σ Bool) := by
  unfold Act.assign
  split
  · refine h.bind (h.getOwn _ _) fun found => ?_
    split
    · split
      · exact h.ret _
      · exact h.define _ _ rfl
    · exact h.createData _ _ _
  · exact h.ret _

theorem assignThrough (d : Descriptor) (receiver : Value) (k : PropertyKey) (v : Value) :
    P (assignThrough d receiver k v : Act σ Bool) := by
  unfold Act.assignThrough
  split
  · split
    · exact h.ret _
    · exact h.assign _ _ _
  · split
    · exact h.ret _
    · exact h.bind (h.call _ _ _) fun _ => h.ret _

theorem set (o : ObjectId) (k : PropertyKey) (v receiver : Value) : P (set o k v receiver : Act σ Bool) := by
  refine h.bind h.store fun s => h.bind h.maxDepth fun n => ?_
  split
  · exact h.assignThrough _ _ _ _
  · exact h.assign _ _ _
  · exact h.throwCause _

/-! ## Conversions -/

/-- Each wrapper is born with the primitive that it wraps. -/
theorem toObject (v : Value) : P (toObject v : Act σ ObjectId) := by
  unfold Act.toObject
  split
  · exact h.ret _
  · rename_i kind prototype _ hw
    refine h.create (.plain _ none ?_)
    cases v <;> cases hw <;> rfl
  · exact h.throwCause _

theorem getV (v : Value) (k : PropertyKey) : P (getV v k : Act σ Value) :=
  h.bind (h.toObject v) fun o => h.get o k v

theorem getMethod (v : Value) (k : PropertyKey) : P (getMethod v k : Act σ (Option Value)) := by
  refine h.bind (h.getV v k) fun f => ?_
  split
  · exact h.ret _
  · refine h.bind (h.isCallable f) fun c => ?_
    split
    · exact h.ret _
    · exact h.throwCause _

theorem invoke (v : Value) (k : PropertyKey) (args : List Value) : P (invoke v k args : Act σ Value) :=
  h.bind (h.getV v k) fun f => h.call f v args

/-- By induction on the methods that are left to be tried. -/
theorem firstPrimitive (o : ObjectId) (names : List PropertyKey) : P (firstPrimitive o names : Act σ Value) := by
  induction names with
  | nil => exact h.throwCause _
  | cons name rest ih =>
    refine h.bind (h.get o name _) fun method => h.bind (h.isCallable method) fun c => ?_
    split
    · refine h.bind (h.call method _ _) fun result => ?_
      split
      · exact ih
      · exact h.ret _
    · exact ih

theorem toPrimitive (v : Value) (hint : Hint) : P (toPrimitive v hint : Act σ Value) := by
  unfold Act.toPrimitive
  split
  · refine h.bind (h.getMethod _ _) fun found => ?_
    split
    · refine h.bind (h.call _ _ _) fun result => ?_
      split
      · exact h.throwCause _
      · exact h.ret _
    · exact h.firstPrimitive _ _
  · exact h.ret _

theorem toText (v : Value) : P (toText v : Act σ Text) := by
  refine h.bind (h.toPrimitive v _) fun p => ?_
  split
  · exact h.ret _
  · exact h.throwCause _

theorem toPropertyKey (v : Value) : P (toPropertyKey v : Act σ PropertyKey) := by
  refine h.bind (h.toPrimitive v _) fun p => ?_
  split
  · exact h.ret _
  · exact h.bind (h.toText _) fun _ => h.ret _

/-! ## Methods of objects -/

theorem hasOwnProperty (this : Value) (args : List Value) : P (hasOwnProperty this args : Act σ Value) :=
  h.bind (h.toPropertyKey _) fun _ => h.bind (h.toObject this) fun _ => h.bind (h.hasOwn _ _) fun _ => h.ret _

theorem propertyIsEnumerable (this : Value) (args : List Value) :
    P (propertyIsEnumerable this args : Act σ Value) :=
  h.bind (h.toPropertyKey _) fun _ => h.bind (h.toObject this) fun _ => h.bind (h.getOwn _ _) fun _ => h.ret _

theorem isPrototypeOf (this : Value) (args : List Value) : P (isPrototypeOf this args : Act σ Value) := by
  unfold Act.isPrototypeOf
  split
  · refine h.bind (h.toObject this) fun target => h.bind h.store fun s => h.bind h.maxDepth fun n => ?_
    split
    · exact h.ret _
    · exact h.throwCause _
  · exact h.ret _

theorem toStringTag (this : Value) : P (toStringTag this : Act σ Value) := by
  unfold Act.toStringTag
  split
  · exact h.ret _
  · exact h.ret _
  · refine h.bind (h.infallible (h.toObject this)) fun o => h.bind h.store fun s => h.bind (h.get o _ _) fun tag => ?_
    split <;> exact h.ret _

theorem toLocaleString (this : Value) : P (toLocaleString this : Act σ Value) := h.invoke this _ _

theorem objectValueOf (this : Value) : P (objectValueOf this : Act σ Value) :=
  h.bind (h.toObject this) fun _ => h.ret _

/-! ## Iterators -/

theorem iterResult (v : Value) (done : Bool) : P (iterResult v done : Act σ ObjectId) :=
  h.bind (h.create (.plain _ none rfl)) fun o => h.bind (h.createData o _ v) fun _ =>
    h.bind (h.createData o _ (.boolean done)) fun _ => h.ret _

theorem resultDone (result : ObjectId) : P (resultDone result : Act σ Bool) := h.bind (h.get _ _ _) fun _ => h.ret _

theorem resultValue (result : ObjectId) : P (resultValue result : Act σ Value) := h.get _ _ _

theorem next (r : IteratorRecord) (arg : Option Value) : P (next r arg : Act σ ObjectId) := by
  refine h.bind (h.call _ _ _) fun result => ?_
  split
  · exact h.ret _
  · exact h.throwCause _

theorem step (r : IteratorRecord) : P (step r : Act σ (Except Abrupt (Option ObjectId) × IteratorRecord)) := by
  refine h.bind (h.attempt (h.next r none)) fun outcome => ?_
  split
  · exact h.ret _
  · refine h.bind (h.attempt (h.resultDone _)) fun outcome => ?_
    split <;> exact h.ret _

theorem stepValue (r : IteratorRecord) :
    P (stepValue r : Act σ (Except Abrupt (Option Value) × IteratorRecord)) := by
  refine h.bind (h.step r) fun found => ?_
  split
  · exact h.ret _
  · exact h.ret _
  · refine h.bind (h.attempt (h.resultValue _)) fun outcome => ?_
    split <;> exact h.ret _

theorem acquireWith (v method : Value) : P (acquireWith v method : Act σ IteratorRecord) := by
  refine h.bind (h.call _ _ _) fun result => ?_
  split
  · exact h.bind (h.get _ _ _) fun _ => h.ret _
  · exact h.throwCause _

theorem acquire (v : Value) : P (acquire v : Act σ IteratorRecord) := by
  refine h.bind (h.getMethod v _) fun found => ?_
  split
  · exact h.acquireWith _ _
  · exact h.throwCause _

theorem mergeClose (reason inner : Completion) : P (mergeClose reason inner : Act σ Completion) := by
  unfold Act.mergeClose
  split
  · exact h.ret _
  · exact h.ret _
  · split
    · exact h.ret _
    · exact h.completion (h.throwCause _)

theorem close (r : IteratorRecord) (reason : Completion) : P (close r reason : Act σ Completion) := by
  refine h.bind (h.attempt (h.getMethod _ _)) fun found => ?_
  split
  · exact h.ret _
  · exact h.bind (h.callFunction _ _ _) fun inner => h.mergeClose _ _
  · exact h.mergeClose _ _

/-- By induction on the rounds that are left, whatever record the last one has left. -/
theorem drain (r : IteratorRecord) (n : Nat) (collected : List Value) :
    P (drain r n collected : Act σ (List Value)) := by
  induction n generalizing r collected with
  | zero => exact h.fail _
  | succ n ih =>
    refine h.bind (h.stepValue r) fun found => h.bind (h.ofExcept _) fun item => ?_
    split
    · exact ih _ _
    · exact h.ret _

theorem iterableToList (v : Value) (method : Option Value) :
    P (iterableToList v method : Act σ (List Value)) := by
  cases method with
  | none => exact h.bind (h.acquire v) fun r => h.bind h.rounds fun n => h.drain r n []
  | some m => exact h.bind (h.acquireWith v m) fun r => h.bind h.rounds fun n => h.drain r n []

theorem listIterator (items : List Value) : P (listIterator items : Act σ IteratorRecord) :=
  h.bind (h.create (.plain _ _ rfl)) fun _ => h.bind (h.newFunction _) fun _ => h.ret _

/-! ## Async iteration -/

theorem newAdapter (sync : IteratorRecord) : P (newAdapter sync : Act σ ObjectId) := h.create (.plain _ _ rfl)

/-- By induction on the fallbacks that are left. -/
theorem acquireAsync (n : Nat) (v : Value) : P (acquireAsync n v : Act σ IteratorRecord) := by
  induction n using Nat.strongRecOn generalizing v with
  | ind n ih =>
    unfold Act.acquireAsync
    refine h.bind (h.getMethod v _) fun found => ?_
    split
    · exact h.acquireWith _ _
    · refine h.bind (h.getMethod v _) fun found => ?_
      split
      · exact h.throwCause _
      · refine h.bind (h.acquireWith _ _) fun sync => h.bind (h.newAdapter sync) fun adapter => ?_
        split
        · exact h.fail _
        · exact ih _ (Nat.lt_succ_self _) _

theorem adapt (sync : IteratorRecord) : P (adapt sync : Act σ IteratorRecord) :=
  h.bind (h.newAdapter sync) fun _ => h.bind h.rounds fun n => h.acquireAsync n _

theorem getIterator (v : Value) (hint : IterationHint) (method : Option Value) :
    P (getIterator v hint method : Act σ IteratorRecord) := by
  unfold Act.getIterator
  split
  · exact h.acquireWith _ _
  · exact h.acquire _
  · exact h.bind h.rounds fun n => h.acquireAsync n _

theorem wrappedRecord (this : Value) : P (wrappedRecord this : Act σ IteratorRecord) := by
  refine h.bind h.store fun s => ?_
  split
  · exact h.ret _
  · exact h.throwCause _

theorem repack (result : ObjectId) : P (repack result : Act σ Value) :=
  h.bind (h.resultDone result) fun _ => h.bind (h.resultValue result) fun _ => h.bind (h.iterResult _ _) fun _ => h.ret _

theorem forward (sync : IteratorRecord) (method : Value) (args : List Value) (notObject : Cause) :
    P (forward sync method args notObject : Act σ Value) := by
  refine h.bind (h.call _ _ _) fun result => ?_
  split
  · exact h.repack _
  · exact h.throwCause _

theorem adapterNext (this : Value) (args : List Value) : P (adapterNext this args : Act σ Value) :=
  h.bind (h.wrappedRecord this) fun sync => h.bind (h.next sync _) fun result => h.repack result

theorem adapterReturn (this : Value) (args : List Value) : P (adapterReturn this args : Act σ Value) := by
  refine h.bind (h.wrappedRecord this) fun sync => h.bind (h.getMethod _ _) fun found => ?_
  split
  · exact h.forward _ _ _ _
  · exact h.bind (h.iterResult _ _) fun _ => h.ret _

theorem adapterThrow (this : Value) (args : List Value) : P (adapterThrow this args : Act σ Value) := by
  refine h.bind (h.wrappedRecord this) fun sync => h.bind (h.getMethod _ _) fun found => ?_
  split
  · exact h.forward _ _ _ _
  · refine h.bind (h.close sync _) fun closed => ?_
    split
    · exact h.raise _
    · exact h.throwCause _

theorem closeAsync (r : IteratorRecord) (reason : Completion) : P (closeAsync r reason : Act σ AsyncClose) := by
  have after (c : Completion) : P (afterReturn reason c : Act σ AsyncClose) := by
    unfold afterReturn
    split
    · exact h.ret _
    · exact h.bind (h.mergeClose _ _) fun _ => h.ret _
  refine h.bind (h.attempt (h.getMethod _ _)) fun found => ?_
  split
  · exact h.ret _
  · exact h.bind (h.callFunction _ _ _) after
  · exact after _

theorem resume (p : PendingClose) (outcome : Completion) : P (resume p outcome : Act σ Completion) :=
  h.mergeClose _ _

theorem closeAsyncWith {await : Value → Act σ Completion} (ha : ∀ v, P (await v)) (r : IteratorRecord)
    (reason : Completion) : P (closeAsyncWith await r reason) := by
  refine h.bind (h.closeAsync r reason) fun closed => ?_
  split
  · exact h.ret _
  · exact h.bind (ha _) fun outcome => h.resume _ outcome

/-! ## Awaiting -/

theorem settle (thenable method : Value) : P (settle thenable method : Act σ Value) := by
  refine h.bind h.newSettlement fun n => h.bind (h.newFunction _) fun _ => h.bind (h.newFunction _) fun _ =>
    h.bind (h.callFunction _ _ _) fun called => h.bind (h.settlement? n) fun decided => ?_
  split
  · exact h.ofCompletion _
  · exact h.raise _
  · exact h.throwCause _

/-- By induction on the settlements that are left. -/
theorem resolution (n : Nat) (v : Value) : P (resolution n v : Act σ Value) := by
  induction n using Nat.strongRecOn generalizing v with
  | ind n ih =>
    unfold Act.resolution
    split
    · exact h.ret _
    · refine h.bind (h.getV v _) fun method => h.bind (h.isCallable method) fun c => ?_
      split
      · exact h.ret _
      · refine h.bind (h.settle v method) fun resolved => ?_
        split
        · exact h.throwCause _
        · split
          · exact h.throwCause _
          · exact ih _ (Nat.lt_succ_self _) _

theorem await (v : Value) : P (await v : Act σ Completion) :=
  h.bind h.maxDepth fun n => h.completion (h.resolution n v)

/-! ## Native code -/

/-- What a function of the library runs is one of the operations above. -/
theorem builtin (b : Builtin) (this : Value) (args : List Value) : P (b.run this args : Act σ Value) := by
  cases b with
  | nothing => exact h.ret _
  | self => exact h.ret _
  | hasOwnProperty => exact h.hasOwnProperty _ _
  | isPrototypeOf => exact h.isPrototypeOf _ _
  | propertyIsEnumerable => exact h.propertyIsEnumerable _ _
  | toLocaleString => exact h.toLocaleString _
  | toString => exact h.toStringTag _
  | valueOf => exact h.objectValueOf _
  | listNext => exact h.listNext _
  | adapterNext => exact h.adapterNext _ _
  | adapterReturn => exact h.adapterReturn _ _
  | adapterThrow => exact h.adapterThrow _ _

/-- So all native code is in the class, if that of the host is. -/
theorem behavior {host : Host σ} (hh : ∀ code this args, P (host code this args)) (b : Behavior) (this : Value)
    (args : List Value) : P (b.run host this args) := by
  cases b with
  | builtin m => exact h.builtin m this args
  | settle n fulfilled => exact h.settleWith n fulfilled args
  | host code => exact hh code this args

end Closed
end Act

end EcmaObjects
