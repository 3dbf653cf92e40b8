/-
  EcmaObjects.Value — language values, their equalities and their plain conversions.

  Objects appear as handles into a store. `Value.strictEq` compares Numbers as
  quantities, `Value.same` as values: they differ on NaN and on the signs of zero
  only. `Value.primitiveText?` is the conversion to a string of everything that
  converts without running code or failing: all but symbols and objects.
-/

import EcmaObjects.Symbol
import EcmaObjects.Decimal.Layout

namespace EcmaObjects

/-- A handle to an object of a store. -/
structure ObjectId where
  index : Nat
  deriving DecidableEq, Repr

inductive Value where
  | undefined
  | null
  | boolean (b : Bool)
  | number (n : Number)
  | string (t : Text)
  | symbol (s : Symbol)
  | bigInt (i : Int)
  | object (o : ObjectId)
  deriving DecidableEq, Repr

instance : Inhabited Value := ⟨.undefined⟩

instance : Coe ObjectId Value := ⟨.object⟩

namespace Value

def ofString (s : String) : Value := .string (Text.ofString s)

/-! ## Kinds -/

def isNullish : Value → Bool
  | .undefined | .null => true
  | _ => false

def object? : Value → Option ObjectId
  | .object o => some o
  | _ => none

def isObject (v : Value) : Bool := v.object?.isSome

/-! ## Equality -/

/-- Equality without conversion: NaN differs from itself, the zeros are equal, symbols
    are equal by number. -/
def strictEq : Value → Value → Bool
  | .undefined, .undefined => true
  | .null, .null => true
  | .boolean a, .boolean b => a == b
  | .number a, .number b => a.equal b
  | .string a, .string b => a == b
  | .symbol a, .symbol b => a.id == b.id
  | .bigInt a, .bigInt b => a == b
  | .object a, .object b => a == b
  | _, _ => false

/-- Strict equality, except that NaN is itself and the zeros are two values. -/
def same : Value → Value → Bool
  | .number a, .number b => a.same b
  | v, w => v.strictEq w

/-! ## Conversion -/

/-- Truth of a value. A BigInt is true, zero included. -/
def toBoolean : Value → Bool
  | .undefined | .null => false
  | .boolean b => b
  | .number n => !n.isZero && !n.isNaN
  | .string t => !t.isEmpty
  | .bigInt _ | .symbol _ | .object _ => true

def primitiveText? : Value → Option String
  | .undefined => some "undefined"
  | .null => some "null"
  | .boolean b => some (if b then "true" else "false")
  | .number n => some n.text
  | .string t => some t.lossy
  | .bigInt i => some (toString i)
  | .symbol _ | .object _ => none

end Value

end EcmaObjects
