/-
  EcmaObjects.Completion — how a piece of code ends.

  Either normally, with a value, or abruptly: by returning, by throwing, or by a break
  or continue with an optional label and an optional value. Abrupt completions are a
  type of their own, so what propagates as a failure is never a normal completion.
-/

import EcmaObjects.Value

namespace EcmaObjects

inductive Abrupt where
  | returned (v : Value)
  | thrown (v : Value)
  | broken (label : Option String) (v : Option Value)
  | continued (label : Option String) (v : Option Value)
  deriving DecidableEq, Repr

inductive Completion where
  | normal (v : Value)
  | abrupt (a : Abrupt)
  deriving DecidableEq, Repr

instance : Inhabited Completion := ⟨.normal .undefined⟩

instance : Coe Abrupt Completion := ⟨.abrupt⟩

def Abrupt.kindName : Abrupt → String
  | .returned _ => "return"
  | .thrown _ => "throw"
  | .broken .. => "break"
  | .continued .. => "continue"

namespace Completion

def kindName : Completion → String
  | .normal _ => "normal"
  | .abrupt a => a.kindName

def isAbrupt : Completion → Bool
  | .normal _ => false
  | .abrupt _ => true

def isThrow : Completion → Bool
  | .abrupt (.thrown _) => true
  | _ => false

/-- What a caller sees of a function that ends so: a return is a normal end. -/
def ofCall : Completion → Completion
  | .abrupt (.returned v) => .normal v
  | c => c

def ofExcept : Except Abrupt Value → Completion
  | .ok v => .normal v
  | .error a => .abrupt a

end Completion

end EcmaObjects
