/-
  EcmaObjects.PropertyTable — the own properties of an object, in order of creation.

  `define?` is the validated definition: a new key needs an extensible object and goes
  to the end, a present key stays where it is. `insert` stores a descriptor as it is.
-/

import EcmaObjects.Descriptor

namespace EcmaObjects

structure PropertyTable where
  entries : List (PropertyKey × Descriptor) := []
  deriving DecidableEq, Repr

namespace PropertyTable

def keys (t : PropertyTable) : List PropertyKey := t.entries.map (·.1)

def get? (t : PropertyTable) (k : PropertyKey) : Option Descriptor := t.entries.lookup k

/-- The value of a data property. -/
def value? (t : PropertyTable) (k : PropertyKey) : Option Value := (t.get? k).bind (·.value)

/-- Writes one entry: in place if the key is there, at the end if it is new. -/
def put (k : PropertyKey) (d : Descriptor) : List (PropertyKey × Descriptor) → List (PropertyKey × Descriptor)
  | [] => [(k, d)]
  | e :: rest => if e.1 = k then (k, d) :: rest else e :: put k d rest

def insert (t : PropertyTable) (k : PropertyKey) (d : Descriptor) : PropertyTable := ⟨put k d t.entries⟩

/-- The table after a definition, or `none` if the definition is refused. -/
def define? (t : PropertyTable) (extensible : Bool) (k : PropertyKey) (d : Descriptor) : Option PropertyTable :=
  match t.get? k with
  | some current => if current.admits d then some (t.insert k (current.merge d)) else none
  | none => if extensible then some (t.insert k d.complete) else none

end PropertyTable

end EcmaObjects
