/-
  EcmaObjects.CommandLine.Probe — values by name.

  A probe is the text of a value: a word for an object or a constant, a text in double
  quotes, a tag to put on an object, or a numeral. `Probe.value` makes the value, or
  reports the text that names none.
-/

import EcmaObjects.CommandLine.Arguments
import EcmaObjects.Evaluation

namespace EcmaObjects.CommandLine

/-- What a command has printed: its lines, newest first. -/
abbrev Printed : Type := List String

/-- How a command, or a part of one, ends: with a value or with an error for the host. -/
abbrev Reply (α : Type) : Type := Except HostError α

/-! ## Probes -/

namespace Probe

/-- A fresh object of this kind. -/
def ofKind (kind : Kind) (prototype : Intrinsic) : Act Printed Value :=
  return .object (← Act.create { kind, proto := some prototype.object })

/-- A fresh object with this text at `Symbol.toStringTag`. -/
def tagged (tag : String) : Act Printed Value := do
  let o ← Act.create { proto := some Intrinsic.objectPrototype.object }
  let _ ← Act.createData o WellKnown.toStringTag (.ofString tag)
  return .object o

/-- The probes that are words, each with the value that it names. -/
def words : List (String × Act Printed Value) := [
  ("undefined", return .undefined),
  ("null", return .null),
  ("true", return .boolean true),
  ("false", return .boolean false),
  ("array", ofKind (.array {}) .arrayPrototype),
  ("object", ofKind .ordinary .objectPrototype),
  ("function", Act.newFunction ⟨"probe", 0, .builtin .nothing⟩),
  ("error", Act.newError .typeError "probe"),
  ("date", ofKind .date .objectPrototype),
  ("regexp", ofKind .regExp .objectPrototype),
  ("arguments", ofKind .arguments .objectPrototype)]

/-- The text after `tagged:`. -/
def tag? (s : String) : Option String :=
  if "tagged:".toList.isPrefixOf s.toList then some (String.ofList (s.toList.drop 7)) else none

/-- The text between double quotes. -/
def quoted? (s : String) : Option String :=
  match s.toList with
  | '"' :: rest => if rest.getLast? = some '"' then some (String.ofList rest.dropLast) else none
  | _ => none

/-- The action that makes the value that a probe names. -/
def reading? (s : String) : Option (Act Printed Value) :=
  words.lookup s <|> (tag? s).map tagged <|> (quoted? s).map (return .ofString ·) <|>
    (Number.ofNumeral? s).map (return .number ·)

def value (s : String) : Act Printed (Reply Value) :=
  match reading? s with
  | some reading => return .ok (← reading)
  | none => return .error (.invalidProbe s)

/-- The values of all probes, or the error of the first that names none. -/
def values : List String → Act Printed (Reply (List Value))
  | [] => return .ok []
  | s :: rest => do
    match ← value s with
    | .error e => return .error e
    | .ok v => return (← values rest).map (v :: ·)

end Probe

end EcmaObjects.CommandLine
