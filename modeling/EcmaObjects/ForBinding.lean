/-
  EcmaObjects.ForBinding — is the left side of a `for … in` or `for … of` a pattern?

  A binding is destructuring if it is an array or object pattern. Names and member
  accesses are not. Other shapes cannot stand there, and a declaration has a binding:
  both are faults, not answers.
-/

import EcmaObjects.Number

namespace EcmaObjects

/-! ## Syntax -/

inductive Expression where
  | null
  | number (n : Number)
  | name (s : String)
  | this
  | call (callee : Expression) (args : List Expression)
  | dot (object : Expression) (property : String)
  | element (object index : Expression)

mutual

inductive Pattern where
  | name (s : String)
  | array (elements : List (Option ArrayElement))
  | object (properties : List ObjectProperty)
  | rest (p : Pattern)
  | target (e : Expression)

inductive ArrayElement where
  | item (p : Pattern)
  | rest (p : Pattern)

inductive ObjectProperty where
  | named (key : String) (p : Pattern)
  | shorthand (key : String)
  | rest (p : Pattern)

end

inductive DeclarationKind where
  | var
  | «let»
  | const
  deriving DecidableEq, Repr

structure Declarator where
  pattern : Pattern
  init : Option Expression

structure Declaration where
  kind : DeclarationKind
  declarators : List Declarator

inductive ForLeft where
  | declaration (d : Declaration)
  | pattern (p : Pattern)

/-! ## Classification -/

inductive BindingFault where
  | noBinding
  | unexpectedShape
  deriving DecidableEq, Repr

def BindingFault.message : BindingFault → String
  | .noBinding => "IsDestructuring: for-declaration without a binding"
  | .unexpectedShape => "IsDestructuring: unexpected binding shape"

def Expression.isMember : Expression → Bool
  | .dot .. | .element .. => true
  | _ => false

def Pattern.isDestructuring : Pattern → Except BindingFault Bool
  | .name _ => .ok false
  | .array _ | .object _ => .ok true
  | .target e => if e.isMember then .ok false else .error .unexpectedShape
  | .rest _ => .error .unexpectedShape

/-- Only the first binding of a declaration counts. -/
def Declaration.isDestructuring (d : Declaration) : Except BindingFault Bool :=
  match d.declarators with
  | [] => .error .noBinding
  | first :: _ => first.pattern.isDestructuring

def ForLeft.isDestructuring : ForLeft → Except BindingFault Bool
  | .declaration d => d.isDestructuring
  | .pattern p => p.isDestructuring

end EcmaObjects
