/-
  EcmaObjects.Property — calls, and the operations on one object and its chain.

  Reading and writing look for the nearest owner of a key (`Store.find`,
  `Store.findForWrite`) and then act on what they found: a getter or setter is called
  with the receiver, a data property is read where it is and written on the receiver.
  Only those calls and the depth limit can end these operations abruptly; defining a
  property and reparenting an object answer with a Boolean.
-/

import EcmaObjects.Action

namespace EcmaObjects

namespace Act

variable {σ : Type}

/-! ## Calls -/

/-- The behavior of a callable value. -/
def behavior? (s : Store) (f : Value) : Option Behavior :=
  ((f.object?.bind s.get?).bind (·.function)).map (·.behavior)

/-- Calls a function and hands on its completion, a return as a normal one. -/
def callFunction (f this : Value) (args : List Value) : Act σ Completion := do
  match behavior? (← store) f with
  | none => completion (throwCause .notCallable)
  | some b => return (← completion (perform b this args)).ofCall

/-- Calls a function for its value. -/
def call (f this : Value) (args : List Value) : Act σ Value := do ofCompletion (← callFunction f this args)

def isCallable (v : Value) : Act σ Bool := return (← store).isCallable v

/-! ## Own properties and prototypes -/

def getOwn (o : ObjectId) (k : PropertyKey) : Act σ (Option Descriptor) := return (← store).own? o k

def hasOwn (o : ObjectId) (k : PropertyKey) : Act σ Bool := return ((← store).own? o k).isSome

/-- Defines a property; false if the object refuses. -/
def define (o : ObjectId) (k : PropertyKey) (d : Descriptor) : Act σ Bool := do
  match (← store).define? o k d with
  | some s => do modifyStore fun _ => s; return true
  | none => return false

def createData (o : ObjectId) (k : PropertyKey) (v : Value) : Act σ Bool := define o k (.plain v)

def getProto (o : ObjectId) : Act σ (Option ObjectId) := return (← store).protoOf o

/-- Gives an object a prototype. An unchanged prototype is always granted; otherwise the
    object must be extensible and must not come to be its own ancestor. -/
def setProto (o : ObjectId) (proto : Option ObjectId) : Act σ Bool := do
  let s ← store
  match s.get? o with
  | none => return false
  | some obj =>
    if obj.proto = proto then return true
    else if !obj.extensible then return false
    else
      match s.reparent? o (← maxDepth) proto with
      | none => tooDeep
      | some false => return false
      | some true => do
        modifyStore (·.modify o fun obj => { obj with proto := s.link? proto })
        return true

/-! ## Reading -/

/-- The value of a found property, as the receiver sees it. -/
def valueOf (d : Descriptor) (receiver : Value) : Act σ Value :=
  if d.isAccessor then
    match d.getter.getD .undefined with
    | .undefined => return .undefined
    | getter => call getter receiver []
  else return d.value.getD .undefined

def get (o : ObjectId) (k : PropertyKey) (receiver : Value) : Act σ Value := do
  match (← store).find k (← maxDepth) o with
  | .found d => valueOf d receiver
  | .absent => return .undefined
  | .tooDeep => tooDeep

/-! ## Writing -/

/-- Writes a data property of the receiver, a new one if it has none. -/
def assign (receiver : Value) (k : PropertyKey) (v : Value) : Act σ Bool := do
  match receiver with
  | .object r =>
    match ← getOwn r k with
    | some existing =>
      if existing.isAccessor || existing.writable == some false then return false else define r k (.onlyValue v)
    | none => createData r k v
  | _ => return false

/-- Writes through a found property: on the receiver if it is data, by its setter otherwise. -/
def assignThrough (d : Descriptor) (receiver : Value) (k : PropertyKey) (v : Value) : Act σ Bool :=
  if d.isData then
    if d.writable == some false then return false else assign receiver k v
  else
    match d.setter.getD .undefined with
    | .undefined => return false
    | setter => do
      let _ ← call setter receiver [v]
      return true

def set (o : ObjectId) (k : PropertyKey) (v receiver : Value) : Act σ Bool := do
  match (← store).findForWrite k (← maxDepth) o with
  | .found d => assignThrough d receiver k v
  | .absent => assign receiver k v
  | .tooDeep => tooDeep

end Act

end EcmaObjects
