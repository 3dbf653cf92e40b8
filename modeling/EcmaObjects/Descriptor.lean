/-
  EcmaObjects.Descriptor — property descriptors and what a definition may change.

  A descriptor has up to six fields. A stored one is complete: all fields of its kind,
  data or accessor, and both shared attributes. `Descriptor.admits` says whether a
  stored property may be redefined as asked, `Descriptor.merge` what is stored then,
  and `Descriptor.complete` what is stored for a new property.
-/

import EcmaObjects.Value

namespace EcmaObjects

structure Descriptor where
  value : Option Value := none
  writable : Option Bool := none
  getter : Option Value := none
  setter : Option Value := none
  enumerable : Option Bool := none
  configurable : Option Bool := none
  deriving DecidableEq, Repr

namespace Descriptor

/-! ## Shapes -/

def data (value : Value) (writable enumerable configurable : Bool) : Descriptor :=
  { value := some value, writable := some writable, enumerable := some enumerable, configurable := some configurable }

/-- The property an assignment creates: all attributes true. -/
def plain (value : Value) : Descriptor := data value true true true

/-- The property of a built-in method: hidden from enumeration. -/
def builtin (value : Value) : Descriptor := data value true false true

/-- Asks for a new value and nothing else. -/
def onlyValue (value : Value) : Descriptor := { value := some value }

def isData (d : Descriptor) : Bool := d.value.isSome || d.writable.isSome

def isAccessor (d : Descriptor) : Bool := d.getter.isSome || d.setter.isSome

def isEnumerable (d : Descriptor) : Bool := d.enumerable == some true

/-! ## A new property -/

/-- The absent fields at their defaults: no value or accessor functions, no permissions. -/
def complete (d : Descriptor) : Descriptor :=
  let shared := { d with enumerable := d.enumerable <|> some false, configurable := d.configurable <|> some false }
  if d.isAccessor then
    { shared with getter := d.getter <|> some .undefined, setter := d.setter <|> some .undefined }
  else
    { shared with value := d.value <|> some .undefined, writable := d.writable <|> some false }

/-! ## Redefinition -/

/-- Is the wanted field absent, or the current one? -/
def keeps (current wanted : Option Value) : Bool :=
  match wanted, current with
  | none, _ => true
  | some w, some c => c.same w
  | some _, none => false

/-- May a property described by `current` be redefined by `wanted`? A configurable one
    may always. Otherwise its kind and attributes stay, accessor functions stay, and a
    read-only value stays. -/
def admits (current wanted : Descriptor) : Bool :=
  if current.configurable != some false then true
  else if wanted.configurable == some true then false
  else if wanted.enumerable.isSome && wanted.enumerable != current.enumerable then false
  else if !wanted.isData && !wanted.isAccessor then true
  else if current.isData != wanted.isData then false
  else if current.isAccessor then keeps current.getter wanted.getter && keeps current.setter wanted.setter
  else if current.writable == some false then wanted.writable != some true && keeps current.value wanted.value
  else true

/-- The current property in the kind that `wanted` asks for, with that kind's defaults
    if the kind changes. -/
def convert (current wanted : Descriptor) : Descriptor :=
  if current.isData && wanted.isAccessor then
    { current with value := none, writable := none, getter := some .undefined, setter := some .undefined }
  else if current.isAccessor && wanted.isData then
    { current with getter := none, setter := none, value := some .undefined, writable := some false }
  else current

/-- The fields of `wanted` where it has them, those of `current` elsewhere. -/
def overlay (current wanted : Descriptor) : Descriptor where
  value := wanted.value <|> current.value
  writable := wanted.writable <|> current.writable
  getter := wanted.getter <|> current.getter
  setter := wanted.setter <|> current.setter
  enumerable := wanted.enumerable <|> current.enumerable
  configurable := wanted.configurable <|> current.configurable

/-- The property that an admitted redefinition leaves. -/
def merge (current wanted : Descriptor) : Descriptor := (current.convert wanted).overlay wanted

end Descriptor

end EcmaObjects
