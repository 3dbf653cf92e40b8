/-
  EcmaObjects.Symbol — symbols and property keys.

  A symbol is its number: the description is only shown. The well-known symbols have
  the numbers 1 to 4; a symbol made by a program gets one from `Symbol.firstUser` on,
  so it never is a well-known one. A property key is Unicode text or a symbol's number.
-/

import EcmaObjects.Text

namespace EcmaObjects

structure Symbol where
  id : Nat
  description : Option Text
  deriving DecidableEq, Repr

/-- What a symbol looks like in a message. -/
def Symbol.descriptive (s : Symbol) : String := "Symbol(" ++ (s.description.map Text.lossy).getD "" ++ ")"

/-- Programs number their own symbols from here. -/
def Symbol.firstUser : Nat := 64

/-! ## Well-known symbols -/

inductive WellKnown where
  | asyncIterator
  | iterator
  | toPrimitive
  | toStringTag
  deriving DecidableEq, Repr

namespace WellKnown

def all : List WellKnown := [asyncIterator, iterator, toPrimitive, toStringTag]

def id : WellKnown → Nat
  | asyncIterator => 1
  | iterator => 2
  | toPrimitive => 3
  | toStringTag => 4

def description : WellKnown → String
  | asyncIterator => "Symbol.asyncIterator"
  | iterator => "Symbol.iterator"
  | toPrimitive => "Symbol.toPrimitive"
  | toStringTag => "Symbol.toStringTag"

def ofId? (n : Nat) : Option WellKnown := all.find? (·.id == n)

def ofDescription? (s : String) : Option WellKnown := all.find? (·.description == s)

def symbol (w : WellKnown) : Symbol := ⟨w.id, some (Text.ofString w.description)⟩

end WellKnown

/-! ## Property keys -/

inductive PropertyKey where
  | text (s : String)
  | symbol (id : Nat)
  deriving DecidableEq, Repr

instance : Coe String PropertyKey := ⟨.text⟩

instance : Coe WellKnown PropertyKey := ⟨fun w => .symbol w.id⟩

namespace PropertyKey

def text? : PropertyKey → Option String
  | .text s => some s
  | .symbol _ => none

def isSymbol : PropertyKey → Bool
  | .text _ => false
  | .symbol _ => true

/-- The key in a message: a string as it is, a symbol in brackets. -/
def display : PropertyKey → String
  | .text s => s
  | .symbol n =>
    match WellKnown.ofId? n with
    | some w => "[" ++ w.description ++ "]"
    | none => "[Symbol #" ++ toString n ++ "]"

end PropertyKey

def Symbol.key (s : Symbol) : PropertyKey := .symbol s.id

end EcmaObjects
