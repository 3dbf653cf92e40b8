/-
  EcmaObjects.Realm — the objects that every store starts with.

  The intrinsics stand where `Intrinsic.object` says, among their methods
  (`Realm.objects`). All chains of prototypes start at `%Object.prototype%`, the one
  object here without one.
-/

import EcmaObjects.Store

namespace EcmaObjects

/-- A function object: it shows its arity as `length` and its name as `name`, both read-only. -/
def Object.ofFunction (f : Function) : Object :=
  let shown (v : Value) := Descriptor.data v false false true
  let bare : Object := { proto := some Intrinsic.functionPrototype.object, function := some f }
  (bare.insert "length" (shown (.number (.ofNat f.arity)))).insert "name" (shown (.ofString f.name))

/-- An error object carries its message. -/
def Object.ofError (prototype : Intrinsic) (message : String) : Object :=
  let bare : Object := { kind := .error, proto := some prototype.object }
  bare.insertBuiltin "message" (.ofString message)

namespace Realm

def inheriting (i : Intrinsic) (kind : Kind) : Object := { kind, proto := some i.object }

/-- A prototype of errors: its name and an empty message. -/
def errorPrototype (parent : Intrinsic) (name : String) : Object :=
  ((inheriting parent .ordinary).insertBuiltin "name" (.ofString name)).insertBuiltin "message" (.ofString "")

def method (name : String) (arity : Nat) (b : Builtin) : Object := .ofFunction ⟨name, arity, .builtin b⟩

/-- The object with methods that stand at the given places. -/
def withMethods (o : Object) (methods : List (PropertyKey × Nat)) : Object :=
  methods.foldl (fun o m => o.insertBuiltin m.1 (.object ⟨m.2⟩)) o

def objects : Array Object := #[
  withMethods {} [("hasOwnProperty", 11), ("isPrototypeOf", 12), ("propertyIsEnumerable", 13), ("toLocaleString", 14),
    ("toString", 15), ("valueOf", 16)],
  { inheriting .objectPrototype .ordinary with function := some ⟨"", 0, .builtin .nothing⟩ },
  inheriting .objectPrototype (.array {}),
  inheriting .objectPrototype (.string (some (.ofString ""))),
  inheriting .objectPrototype (.boolean (some false)),
  inheriting .objectPrototype (.number (some .zero)),
  inheriting .objectPrototype .ordinary,
  inheriting .objectPrototype .ordinary,
  errorPrototype .objectPrototype "Error",
  errorPrototype .errorPrototype "TypeError",
  errorPrototype .errorPrototype "RangeError",
  method "hasOwnProperty" 1 .hasOwnProperty,
  method "isPrototypeOf" 1 .isPrototypeOf,
  method "propertyIsEnumerable" 1 .propertyIsEnumerable,
  method "toLocaleString" 0 .toLocaleString,
  method "toString" 0 .toString,
  method "valueOf" 0 .valueOf,
  withMethods (inheriting .objectPrototype .ordinary) [(WellKnown.iterator, 18)],
  method "[Symbol.iterator]" 0 .self,
  withMethods (inheriting .objectPrototype .ordinary) [(WellKnown.asyncIterator, 20)],
  method "[Symbol.asyncIterator]" 0 .self,
  withMethods (inheriting .asyncIteratorPrototype .ordinary) [("next", 22), ("return", 23), ("throw", 24)],
  method "next" 1 .adapterNext,
  method "return" 1 .adapterReturn,
  method "throw" 1 .adapterThrow]

def store : Store where
  objects := objects
  intrinsics i := by cases i <;> decide

end Realm

end EcmaObjects
