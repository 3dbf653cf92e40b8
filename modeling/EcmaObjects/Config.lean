/-
  EcmaObjects.Config — the limit that an evaluation respects.
-/

import EcmaObjects.Error

namespace EcmaObjects

structure Config where
  /-- Links that one walk along a chain may follow, and thenables that one await may. -/
  maxDepth : Nat := 10000
  deriving DecidableEq, Repr

/-- A limit of zero is refused. -/
def Config.validate (c : Config) : Except HostError Config :=
  if c.maxDepth = 0 then .error .zeroDepth else .ok c

end EcmaObjects
