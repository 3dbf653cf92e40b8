/-
  EcmaObjects.Intrinsic — the objects that programs can count on, by name.

  The intrinsics are among the first objects of every store, each at a fixed place
  (`Intrinsic.object`). A store has them all from the start and never loses one, so a
  prototype that is an intrinsic is always there to be linked.
-/

import EcmaObjects.Value

namespace EcmaObjects

inductive Intrinsic where
  | objectPrototype
  | functionPrototype
  | arrayPrototype
  | stringPrototype
  | booleanPrototype
  | numberPrototype
  | symbolPrototype
  | bigIntPrototype
  | errorPrototype
  | typeErrorPrototype
  | rangeErrorPrototype
  | iteratorPrototype
  | asyncIteratorPrototype
  | asyncFromSyncIteratorPrototype
  | objectToString
  | objectValueOf
  deriving DecidableEq, Repr

namespace Intrinsic

/-- All intrinsics, in the order in which they are listed. -/
def all : List Intrinsic :=
  [objectPrototype, functionPrototype, arrayPrototype, stringPrototype, booleanPrototype, numberPrototype,
    symbolPrototype, bigIntPrototype, errorPrototype, typeErrorPrototype, rangeErrorPrototype, iteratorPrototype,
    asyncIteratorPrototype, asyncFromSyncIteratorPrototype, objectToString, objectValueOf]

def name : Intrinsic → String
  | objectPrototype => "%Object.prototype%"
  | functionPrototype => "%Function.prototype%"
  | arrayPrototype => "%Array.prototype%"
  | stringPrototype => "%String.prototype%"
  | booleanPrototype => "%Boolean.prototype%"
  | numberPrototype => "%Number.prototype%"
  | symbolPrototype => "%Symbol.prototype%"
  | bigIntPrototype => "%BigInt.prototype%"
  | errorPrototype => "%Error.prototype%"
  | typeErrorPrototype => "%TypeError.prototype%"
  | rangeErrorPrototype => "%RangeError.prototype%"
  | iteratorPrototype => "%IteratorPrototype%"
  | asyncIteratorPrototype => "%AsyncIteratorPrototype%"
  | asyncFromSyncIteratorPrototype => "%AsyncFromSyncIteratorPrototype%"
  | objectToString => "%ObjProto_toString%"
  | objectValueOf => "%ObjProto_valueOf%"

def ofName? (s : String) : Option Intrinsic := all.find? (·.name == s)

/-- The place of an intrinsic among the first objects. -/
def object : Intrinsic → ObjectId
  | objectPrototype => ⟨0⟩
  | functionPrototype => ⟨1⟩
  | arrayPrototype => ⟨2⟩
  | stringPrototype => ⟨3⟩
  | booleanPrototype => ⟨4⟩
  | numberPrototype => ⟨5⟩
  | symbolPrototype => ⟨6⟩
  | bigIntPrototype => ⟨7⟩
  | errorPrototype => ⟨8⟩
  | typeErrorPrototype => ⟨9⟩
  | rangeErrorPrototype => ⟨10⟩
  | objectToString => ⟨15⟩
  | objectValueOf => ⟨16⟩
  | iteratorPrototype => ⟨17⟩
  | asyncIteratorPrototype => ⟨19⟩
  | asyncFromSyncIteratorPrototype => ⟨21⟩

end Intrinsic

end EcmaObjects
