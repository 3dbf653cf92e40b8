/-
  EcmaObjects.Function — native functions as data.

  A callable object carries a name, an arity and a behavior. The behavior names what
  the call does: a method of the library, one side of a settlement (`Await`), or code
  of the host, known by a number. What each does is given where calls are run
  (`Evaluation`), so a store can be compared, copied and printed.
-/

import EcmaObjects.Value

namespace EcmaObjects

inductive Builtin where
  /-- Returns undefined. -/
  | nothing
  /-- Returns its receiver. -/
  | self
  | hasOwnProperty
  | isPrototypeOf
  | propertyIsEnumerable
  | toLocaleString
  | toString
  | valueOf
  | listNext
  | adapterNext
  | adapterReturn
  | adapterThrow
  deriving DecidableEq, Repr

inductive Behavior where
  | builtin (method : Builtin)
  /-- Settles the numbered settlement with the first argument, as fulfilled or as rejected. -/
  | settle (settlement : Nat) (fulfilled : Bool)
  | host (code : Nat)
  deriving DecidableEq, Repr

structure Function where
  name : String
  arity : Nat
  behavior : Behavior
  deriving DecidableEq, Repr

end EcmaObjects
