/-
  EcmaObjects.Iterator.List — iterators over a list that already exists.

  The position is kept on the iterator object, so every list iterator's `next` works on
  every list iterator. Past the last item the position stays and the result is done.
-/

import EcmaObjects.Iterator

namespace EcmaObjects

/-- The object after a step, and the item it gives; no answer if it is no list iterator. -/
def Object.nextItem? (o : Object) : Option (Option Value × Object) :=
  match o.iteration with
  | some (.list items position) =>
    match items[position]? with
    | some v => some (some v, { o with iteration := some (.list items (position + 1)) })
    | none => some (none, o)
  | _ => none

/-- The item that a list iterator gives and the store after it; no answer for any other value. -/
def Store.nextItem? (s : Store) (v : Value) : Option (Option Value × Store) := do
  let o ← v.object?
  let (item, after) ← (← s.get? o).nextItem?
  return (item, s.modify o fun _ => after)

namespace Act

variable {σ : Type}

/-- The `next` method of list iterators. -/
def listNext (this : Value) : Act σ Value := do
  match (← store).nextItem? this with
  | none => throwCause .notListIterator
  | some (item, s) => do
    modifyStore fun _ => s
    return .object (← iterResult (item.getD .undefined) item.isNone)

/-- A function object of the library or of the host. -/
def newFunction (f : Function) : Act σ Value := return .object (← create (.ofFunction f))

/-- The record of a fresh iterator over a list. -/
def listIterator (items : List Value) : Act σ IteratorRecord := do
  let iterator ← create
    { proto := some Intrinsic.iteratorPrototype.object, iteration := some (.list items.toArray 0) }
  return { iterator, next := ← newFunction ⟨"next", 0, .builtin .listNext⟩ }

end Act

end EcmaObjects
