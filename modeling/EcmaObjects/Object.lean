/-
  EcmaObjects.Object — one object and its own properties.

  Every object has a property table. Arrays answer `length` and the array indices from
  their elements, string wrappers from the string they wrap; those keys are the
  object's exotic keys (`PropertyKey.exotic?`), and a definition at one of them never
  reaches the table of an array. `Object.own?` reads a property, `Object.define?`
  defines one, or refuses.
-/

import EcmaObjects.Completion
import EcmaObjects.Elements
import EcmaObjects.Function
import EcmaObjects.PropertyTable

namespace EcmaObjects

/-! ## Objects -/

inductive Kind where
  | ordinary
  | array (elements : Elements)
  | string (wrapped : Option Text)
  | arguments
  | error
  | boolean (wrapped : Option Bool)
  | number (wrapped : Option Number)
  | symbol (wrapped : Option Symbol)
  | bigInt (wrapped : Option Int)
  | date
  | regExp
  deriving DecidableEq, Repr

namespace Kind

def name : Kind → String
  | .ordinary => "Ordinary"
  | .array _ => "Array"
  | .string _ => "String"
  | .arguments => "Arguments"
  | .error => "Error"
  | .boolean _ => "Boolean"
  | .number _ => "Number"
  | .symbol _ => "Symbol"
  | .bigInt _ => "BigInt"
  | .date => "Date"
  | .regExp => "RegExp"

/-- Every kind, with no elements and nothing wrapped. -/
def bare : List Kind :=
  [.ordinary, .array {}, .string none, .arguments, .error, .boolean none, .number none, .symbol none, .bigInt none,
    .date, .regExp]

def ofName? (s : String) : Option Kind := bare.find? (·.name == s)

/-- The primitive value that a wrapper wraps. -/
def primitive? : Kind → Option Value
  | .string t => t.map .string
  | .boolean b => b.map .boolean
  | .number n => n.map .number
  | .symbol s => s.map .symbol
  | .bigInt i => i.map .bigInt
  | _ => none

def isArray : Kind → Bool
  | .array _ => true
  | _ => false

end Kind

/-- An iterator as its user holds it: the object, the `next` method read once, and
    whether the end has been seen. -/
structure IteratorRecord where
  iterator : ObjectId
  next : Value
  done : Bool := false
  deriving DecidableEq, Repr

/-- What the library's own iterators remember. -/
inductive Iteration where
  | list (items : Array Value) (position : Nat)
  | adapter (sync : IteratorRecord)
  deriving DecidableEq, Repr

structure Object where
  kind : Kind := .ordinary
  proto : Option ObjectId := none
  extensible : Bool := true
  properties : PropertyTable := {}
  function : Option Function := none
  iteration : Option Iteration := none
  deriving DecidableEq, Repr

/-! ## Exotic keys -/

inductive ExoticKey where
  | length
  | index (i : Nat)
  deriving DecidableEq, Repr

def PropertyKey.exotic? : PropertyKey → Option ExoticKey
  | .symbol _ => none
  | .text s => if s = "length" then some .length else (arrayIndex? s).map .index

namespace Elements

def lengthProperty (e : Elements) : Descriptor := .data (.number (.ofNat e.length)) true false false

def own? (e : Elements) : ExoticKey → Option Descriptor
  | .length => some e.lengthProperty
  | .index i => (e.get? i).map .plain

/-- A length is a Number that is a natural number below `2^32`. -/
def lengthOf? : Value → Option Nat
  | .number n => n.toNat?.filter (· ≤ maxArrayLength)
  | _ => none

/-- A definition of `length` may set it to a length, and never makes it read-only. -/
def defineLength? (e : Elements) (d : Descriptor) : Option Elements :=
  if !e.lengthProperty.admits d || d.writable == some false then none
  else
    match d.value with
    | none => some e
    | some v => (lengthOf? v).map e.setLength

/-- An element is plain data; a definition that asks for anything else is refused. One
    without a value keeps the element, or fills a gap with undefined. -/
def defineElement? (e : Elements) (i : Nat) (d : Descriptor) : Option Elements :=
  if d.isAccessor || d.writable == some false || d.enumerable == some false || d.configurable == some false then none
  else some (e.set i ((d.value <|> e.get? i).getD .undefined))

def define? (e : Elements) : ExoticKey → Descriptor → Option Elements
  | .length, d => e.defineLength? d
  | .index i, d => e.defineElement? i d

end Elements

/-- The properties that a wrapper takes from its string: the length and one property a code unit. -/
def Text.own? (t : Text) : ExoticKey → Option Descriptor
  | .length => some (.data (.number (.ofNat t.length)) false false false)
  | .index i => if i < t.length then some (.data (.string (t.slice i (i + 1))) false true false) else none

/-! ## Own properties -/

namespace Object

/-- The property at an exotic key, if the object has one there. -/
def exotic? (o : Object) (k : PropertyKey) : Option Descriptor :=
  match o.kind with
  | .array e => k.exotic?.bind e.own?
  | .string (some t) => k.exotic?.bind t.own?
  | _ => none

def own? (o : Object) (k : PropertyKey) : Option Descriptor := o.exotic? k <|> o.properties.get? k

/-- The definition as an object without exotic keys does it. -/
def defineOrdinary? (o : Object) (k : PropertyKey) (d : Descriptor) : Option Object :=
  (o.properties.define? o.extensible k d).map fun t => { o with properties := t }

/-- The object after a definition, or `none` if the definition is refused. -/
def define? (o : Object) (k : PropertyKey) (d : Descriptor) : Option Object :=
  match o.kind, k.exotic? with
  | .array e, some x => (e.define? x d).map fun e => { o with kind := .array e }
  | .string (some t), some x =>
    match t.own? x with
    | some current => if current.admits d then some o else none
    | none => o.defineOrdinary? k d
  | _, _ => o.defineOrdinary? k d

/-- Stores a property with no checks. -/
def insert (o : Object) (k : PropertyKey) (d : Descriptor) : Object := { o with properties := o.properties.insert k d }

/-- Stores a property as built-in methods are stored. -/
def insertBuiltin (o : Object) (k : PropertyKey) (v : Value) : Object := o.insert k (.builtin v)

def isCallable (o : Object) : Bool := o.function.isSome

end Object

end EcmaObjects
