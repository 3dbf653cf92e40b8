/-
  EcmaObjects.Elements — the element storage of an array.

  Elements are dense up to the first gap; what lies past a gap is kept apart, by
  index, and moves into the dense run when the gap is filled. The length is a count of
  its own: it exceeds every stored index and may exceed them all.
-/

import EcmaObjects.ArrayIndex
import EcmaObjects.Value

namespace EcmaObjects

structure Elements where
  dense : Array Value := #[]
  sparse : List (Nat × Value) := []
  length : Nat := 0
  deriving DecidableEq, Repr

namespace Elements

def ofValues (values : Array Value) : Elements := { dense := values, length := min values.size maxArrayLength }

def isEmpty (e : Elements) : Bool := e.length == 0

def get? (e : Elements) (i : Nat) : Option Value := e.dense[i]? <|> e.sparse.lookup i

/-- The stray elements without the one at `i`. -/
def without (i : Nat) (sparse : List (Nat × Value)) : List (Nat × Value) := sparse.filter (·.1 != i)

/-- Moves strays into the dense run while the next index has one; each move leaves one
    stray fewer, so as many rounds as there are strays suffice. -/
def absorb : Nat → Array Value → List (Nat × Value) → Array Value × List (Nat × Value)
  | 0, dense, sparse => (dense, sparse)
  | n + 1, dense, sparse =>
    match sparse.lookup dense.size with
    | some v => absorb n (dense.push v) (without dense.size sparse)
    | none => (dense, sparse)

/-- Writes the element at an array index. -/
def set (e : Elements) (i : Nat) (v : Value) : Elements :=
  let length := max e.length (i + 1)
  if i < e.dense.size then { e with dense := e.dense.setIfInBounds i v, length }
  else if i = e.dense.size then
    let (dense, sparse) := absorb e.sparse.length (e.dense.push v) e.sparse
    { dense, sparse, length }
  else { e with sparse := (i, v) :: without i e.sparse, length }

/-- Sets the length; elements at or past it are dropped. -/
def setLength (e : Elements) (n : Nat) : Elements :=
  { dense := e.dense.take n, sparse := e.sparse.filter (·.1 < n), length := n }

end Elements

end EcmaObjects
