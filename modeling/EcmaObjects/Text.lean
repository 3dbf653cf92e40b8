/-
  EcmaObjects.Text — language strings: finite sequences of 16-bit code units.

  Every sequence is a string, paired surrogates or not. Unicode text enters by its
  UTF-16 encoding (`Text.ofString`). It leaves by `Text.toString?`, which answers only
  for well-formed sequences, or by `Text.lossy`, which writes U+FFFD for each
  surrogate that has no partner. Both read the units through one decoding,
  `Text.scalars`, so they agree wherever the first answers.
-/

namespace EcmaObjects

structure Text where
  units : List UInt16
  deriving DecidableEq, Repr, Inhabited

namespace Text

/-! ## Surrogates -/

def isLeading (u : UInt16) : Bool := 0xD800 ≤ u && u < 0xDC00

def isTrailing (u : UInt16) : Bool := 0xDC00 ≤ u && u < 0xE000

/-- The character a leading and a trailing surrogate stand for together. -/
def paired (lead trail : UInt16) : Char :=
  Char.ofNat (0x10000 + (lead.toNat - 0xD800) * 0x400 + (trail.toNat - 0xDC00))

/-- The character a unit stands for by itself; a surrogate stands for none. -/
def single (u : UInt16) : Option Char :=
  if isLeading u || isTrailing u then none else some (Char.ofNat u.toNat)

/-- The code units of one character: itself below U+10000, a surrogate pair from there on. -/
def unitsOf (c : Char) : List UInt16 :=
  if c.toNat < 0x10000 then [c.toNat.toUInt16]
  else
    let offset := c.toNat - 0x10000
    [(0xD800 + offset / 0x400).toUInt16, (0xDC00 + offset % 0x400).toUInt16]

/-! ## Reading and writing Unicode text -/

/-- The characters of a run of units, left to right; `none` marks a surrogate without its partner. -/
def scalars : List UInt16 → List (Option Char)
  | [] => []
  | [u] => [single u]
  | u :: v :: rest =>
    if isLeading u && isTrailing v then some (paired u v) :: scalars rest else single u :: scalars (v :: rest)

def ofString (s : String) : Text := ⟨s.toList.flatMap unitsOf⟩

/-- The text as Unicode, if it is well formed. -/
def toString? (t : Text) : Option String := ((scalars t.units).mapM id).map String.ofList

/-- The text as Unicode, with U+FFFD for every unpaired surrogate. -/
def lossy (t : Text) : String := String.ofList ((scalars t.units).map (·.getD '\uFFFD'))

/-! ## Length and slices -/

def length (t : Text) : Nat := t.units.length

def isEmpty (t : Text) : Bool := t.units.isEmpty

/-- The units from `start` up to `stop`; bounds past the end count as the end. -/
def slice (t : Text) (start stop : Nat) : Text := ⟨(t.units.take stop).drop start⟩

end Text

end EcmaObjects
