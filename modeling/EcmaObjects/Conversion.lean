/-
  EcmaObjects.Conversion — between objects, primitives, strings and property keys.

  A primitive becomes an object by wrapping; an object becomes a primitive by its own
  methods, which are looked up and called in an order that the hint decides. The other
  conversions go through these two.
-/

import EcmaObjects.Property

namespace EcmaObjects

/-- Which primitive a conversion would like. -/
inductive Hint where
  | string
  | number
  deriving DecidableEq, Repr

def Hint.text : Hint → String
  | .string => "string"
  | .number => "number"

/-- The methods tried in turn. -/
def Hint.methods : Hint → List PropertyKey
  | .string => ["toString", "valueOf"]
  | .number => ["valueOf", "toString"]

/-- The wrapper of a primitive: its kind and the prototype it inherits from. -/
def Value.wrapper? : Value → Option (Kind × Intrinsic)
  | .undefined | .null | .object _ => none
  | .boolean b => some (.boolean (some b), .booleanPrototype)
  | .number n => some (.number (some n), .numberPrototype)
  | .string t => some (.string (some t), .stringPrototype)
  | .symbol s => some (.symbol (some s), .symbolPrototype)
  | .bigInt i => some (.bigInt (some i), .bigIntPrototype)

namespace Act

variable {σ : Type}

/-! ## Objects and methods of any value -/

def toObject (v : Value) : Act σ ObjectId :=
  match v.object?, v.wrapper? with
  | some o, _ => return o
  | none, some (kind, prototype) => create { kind, proto := some prototype.object }
  | none, none => throwCause .nullishObject

/-- A property of any value; the value itself is the receiver. -/
def getV (v : Value) (k : PropertyKey) : Act σ Value := do get (← toObject v) k v

/-- A method of any value: none if it is undefined or null, an error if it cannot be called. -/
def getMethod (v : Value) (k : PropertyKey) : Act σ (Option Value) := do
  let f ← getV v k
  if f.isNullish then return none
  else if ← isCallable f then return some f
  else throwCause (.methodNotCallable k)

def invoke (v : Value) (k : PropertyKey) (args : List Value) : Act σ Value := do call (← getV v k) v args

/-! ## Primitives -/

/-- The first primitive that one of the methods answers; methods that are no functions are passed over. -/
def firstPrimitive (o : ObjectId) : List PropertyKey → Act σ Value
  | [] => throwCause .noPrimitive
  | name :: rest => do
    let method ← get o name (.object o)
    if ← isCallable method then
      let result ← call method (.object o) []
      if result.isObject then firstPrimitive o rest else return result
    else firstPrimitive o rest

/-- A primitive value for any value. An object with a `Symbol.toPrimitive` method has that
    method decide, others their `toString` and `valueOf`. -/
def toPrimitive (v : Value) (hint : Hint) : Act σ Value :=
  match v with
  | .object o => do
    match ← getMethod v WellKnown.toPrimitive with
    | some method => do
      let result ← call method v [.ofString hint.text]
      if result.isObject then throwCause .noPrimitive else return result
    | none => firstPrimitive o hint.methods
  | _ => return v

/-! ## Strings and keys -/

def toText (v : Value) : Act σ Text := do
  match (← toPrimitive v .string).primitiveText? with
  | some s => return .ofString s
  | none => throwCause .symbolText

def toPropertyKey (v : Value) : Act σ PropertyKey := do
  match ← toPrimitive v .string with
  | .symbol s => return s.key
  | p => return .text (← toText p).lossy

end Act

end EcmaObjects
