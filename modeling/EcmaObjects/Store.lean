/-
  EcmaObjects.Store — all objects, by handle, and the walks along their prototypes.

  Handles count objects in order of creation and stay valid for good; those of the
  intrinsics always are. A handle past the end reads as an object with nothing, and is
  stored as no prototype at all.
  Prototype walks stop at a limit on the links followed:
  - `find` looks for the nearest owner of a key and fails with more than `limit` links;
  - `findForWrite` does, but counts the end of a chain without an owner as one more link;
  - `isAncestor?` looks for an object above another;
  - `reparent?` looks for the object itself above its prototype to be.
  `ancestors` lists a chain with no limit; a chain without a cycle is no longer than
  the store, so it stops there.
-/

import EcmaObjects.Intrinsic
import EcmaObjects.Object

namespace EcmaObjects

structure Store where
  objects : Array Object
  intrinsics : ∀ i : Intrinsic, i.object.index < objects.size
  deriving DecidableEq, Repr

namespace Store

/-! ## Objects -/

def size (s : Store) : Nat := s.objects.size

def get? (s : Store) (o : ObjectId) : Option Object := s.objects[o.index]?

def has (s : Store) (o : ObjectId) : Bool := o.index < s.size

def modify (s : Store) (o : ObjectId) (f : Object → Object) : Store where
  objects := s.objects.modify o.index f
  intrinsics i := by
    rw [Array.size_modify]
    exact s.intrinsics i

/-- The handle that the next object gets. -/
def fresh (s : Store) : ObjectId := ⟨s.size⟩

/-- A handle as a prototype link: none if it is in no store. -/
def link? (s : Store) (proto : Option ObjectId) : Option ObjectId := proto.filter s.has

/-- Adds an object. -/
def add (s : Store) (o : Object) : Store where
  objects := s.objects.push { o with proto := s.link? o.proto }
  intrinsics i := by
    rw [Array.size_push]
    exact Nat.lt_succ_of_lt (s.intrinsics i)

def protoOf (s : Store) (o : ObjectId) : Option ObjectId := (s.get? o).bind (·.proto)

def isCallable (s : Store) (v : Value) : Bool := (v.object?.bind s.get?).any (·.isCallable)

def isArray (s : Store) (v : Value) : Bool := (v.object?.bind s.get?).any (·.kind.isArray)

/-! ## Own properties -/

def own? (s : Store) (o : ObjectId) (k : PropertyKey) : Option Descriptor := (s.get? o).bind (·.own? k)

/-- The store after a definition, or `none` if the object is missing or refuses it. -/
def define? (s : Store) (o : ObjectId) (k : PropertyKey) (d : Descriptor) : Option Store :=
  ((s.get? o).bind (·.define? k d)).map fun obj => s.modify o fun _ => obj

/-! ## Walks -/

inductive Search where
  | found (d : Descriptor)
  | absent
  | tooDeep
  deriving DecidableEq, Repr

/-- The property at `k` of the nearest owner, at most `limit` links above `o`. -/
def find (s : Store) (k : PropertyKey) : Nat → ObjectId → Search
  | limit, o =>
    match s.own? o k with
    | some d => .found d
    | none =>
      match s.protoOf o, limit with
      | none, _ => .absent
      | some _, 0 => .tooDeep
      | some p, n + 1 => s.find k n p

/-- As `find`, except that a chain without an owner has to end below the limit. -/
def findForWrite (s : Store) (k : PropertyKey) : Nat → ObjectId → Search
  | limit, o =>
    match s.own? o k with
    | some d => .found d
    | none =>
      match limit, s.protoOf o with
      | 0, _ => .tooDeep
      | _ + 1, none => .absent
      | n + 1, some p => s.findForWrite k n p

/-- Is `target` above `o`? No answer if neither it nor the end is within the limit. -/
def isAncestor? (s : Store) (target : ObjectId) : Nat → ObjectId → Option Bool
  | limit, o =>
    match s.protoOf o with
    | none => some false
    | some p =>
      if p = target then some true
      else
        match limit with
        | 0 => none
        | n + 1 => s.isAncestor? target n p

/-- May `o` take this prototype? Not if `o` is on the chain that starts there; no answer
    if the chain has more than `limit` objects before `o` or the end. -/
def reparent? (s : Store) (o : ObjectId) : Nat → Option ObjectId → Option Bool
  | _, none => some true
  | limit, some p =>
    if p = o then some false
    else
      match limit with
      | 0 => none
      | n + 1 => s.reparent? o n (s.protoOf p)

/-- The object and those above it, nearest first, up to `n` of them. -/
def ancestors (s : Store) : Nat → Option ObjectId → List ObjectId
  | 0, _ => []
  | _ + 1, none => []
  | n + 1, some o => o :: s.ancestors n (s.protoOf o)

/-- The first data value at `k` in the property tables of a chain, for display. -/
def shownValue? (s : Store) (o : ObjectId) (k : PropertyKey) : Option Value :=
  (s.ancestors s.size (some o)).findSome? fun p => (s.get? p).bind (·.properties.value? k)

end Store

end EcmaObjects
