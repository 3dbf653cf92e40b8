/-
  EcmaObjects.ObjectMethods — the methods of `%Object.prototype%`.

  Methods that take a key convert it before the receiver. `toString` names the kind of
  its receiver unless a string at `Symbol.toStringTag` says otherwise.
-/

import EcmaObjects.Conversion

namespace EcmaObjects

/-- The tag of an object by its kind; being callable counts for more than the kinds below it. -/
def Object.tag (o : Object) : String :=
  match o.kind, o.isCallable with
  | .array _, _ => "Array"
  | .string _, _ => "String"
  | .arguments, _ => "Arguments"
  | _, true => "Function"
  | .error, _ => "Error"
  | .boolean _, _ => "Boolean"
  | .number _, _ => "Number"
  | .date, _ => "Date"
  | .regExp, _ => "RegExp"
  | _, _ => "Object"

def Store.tagOf (s : Store) (o : ObjectId) : String := ((s.get? o).map Object.tag).getD "Object"

namespace Act

variable {σ : Type}

def argument (args : List Value) : Value := args.head?.getD .undefined

def hasOwnProperty (this : Value) (args : List Value) : Act σ Value := do
  let k ← toPropertyKey (argument args)
  return .boolean (← hasOwn (← toObject this) k)

def propertyIsEnumerable (this : Value) (args : List Value) : Act σ Value := do
  let k ← toPropertyKey (argument args)
  return .boolean ((← getOwn (← toObject this) k).any (·.isEnumerable))

/-- Is the receiver above the argument? False for an argument that is no object, whatever the receiver. -/
def isPrototypeOf (this : Value) (args : List Value) : Act σ Value := do
  match argument args with
  | .object o => do
    let target ← toObject this
    match (← store).isAncestor? target (← maxDepth) o with
    | some answer => return .boolean answer
    | none => tooDeep
  | _ => return .boolean false

def objectText (tag : String) : Value := .ofString ("[object " ++ tag ++ "]")

def toStringTag (this : Value) : Act σ Value := do
  match this with
  | .undefined => return objectText "Undefined"
  | .null => return objectText "Null"
  | _ => do
    let o ← infallible (toObject this)
    let byKind := (← store).tagOf o
    match ← get o WellKnown.toStringTag (.object o) with
    | .string t => return objectText t.lossy
    | _ => return objectText byKind

def toLocaleString (this : Value) : Act σ Value := invoke this "toString" []

def objectValueOf (this : Value) : Act σ Value := return .object (← toObject this)

end Act

end EcmaObjects
