/-
  EcmaObjects.CommandLine.Run — carrying out a command.

  `tag` prints the tag of each value as it reads it; `iterate` reads all values first,
  then steps a list iterator over them and prints what it gives, or closes it with a
  break after a number of values. What a command prints is the host state of its
  evaluation (`Printed`), so it stands even if the command then ends with an error.
-/

import EcmaObjects.CommandLine.Probe

namespace EcmaObjects.CommandLine

/-! ## Commands -/

def print (line : String) : Act Printed Unit := Act.modifyHost (line :: ·)

/-- A completion as the host gets it. -/
def received (c : Completion) : Act Printed (Reply Value) := return (← Act.store).intoHost c

def tagValues : List String → Act Printed (Reply Unit)
  | [] => return .ok ()
  | probe :: rest => do
    match ← Probe.value probe with
    | .error e => return .error e
    | .ok v => do
      let c ← Act.callFunction (.object Intrinsic.objectToString.object) v []
      match ← received c with
      | .error e => return .error e
      | .ok tag => do
        print ((← Act.store).describe tag)
        tagValues rest

/-- The text of a value, as the language converts it. -/
def render (v : Value) : Act Printed (Reply String) := do
  let c ← Act.completion (return .string (← Act.toText v))
  match ← received c with
  | .error e => return .error e
  | .ok text => return .ok ((← Act.store).describe text)

/-- Closes with a break, and reports how that ended. -/
def closeEarly (r : IteratorRecord) : Act Printed (Reply Unit) := do
  let closed ← Act.close r (.abrupt (.broken none none))
  print ("closed: " ++ closed.kindName)
  if closed = .abrupt (.broken none none) then return .ok ()
  else return (← received closed).map fun _ => ()

/-- Prints the values from number `index` on, in at most `n` steps. -/
def printSteps (closeAfter : Option Nat) : Nat → Nat → IteratorRecord → Act Printed (Reply Unit)
  | 0, _, _ => Act.fail .exhausted
  | n + 1, index, r => do
    if closeAfter = some index then closeEarly r
    else
      let (outcome, r) ← Act.stepValue r
      match ← received (.ofExcept (outcome.map (·.getD .undefined))) with
      | .error e => return .error e
      | .ok v => do
        if r.done then
          print "done"
          return .ok ()
        else
          match ← render v with
          | .error e => return .error e
          | .ok text => do
            print (toString index ++ ": " ++ text)
            printSteps closeAfter n (index + 1) r

def iterateValues (probes : List String) (closeAfter : Option Nat) : Act Printed (Reply Unit) := do
  match ← Probe.values probes with
  | .error e => return .error e
  | .ok values => printSteps closeAfter (values.length + 1) 0 (← Act.listIterator values)

def Command.act : Command → Act Printed (Reply Unit)
  | .tag probes => tagValues probes
  | .iterate probes closeAfter => iterateValues probes closeAfter

/-! ## Outcomes -/

/-- What a run leaves: the exit code and the two outputs. -/
structure Outcome where
  exitCode : Nat
  output : String
  errors : String
  deriving DecidableEq, Repr

def lines (printed : List String) : String := String.join (printed.map (· ++ "\n"))

/-- Commands run library code only, which nests a call or two. -/
def budget : Budget := ⟨64, 64⟩

/-- Runs a command with a valid configuration. -/
def Command.run (config : Config) (c : Command) : Outcome :=
  match c.act.run (fun _ _ _ => return .undefined) config budget ⟨{}, []⟩ with
  | .ok (.ok ()) w => ⟨0, lines w.host.reverse, ""⟩
  | .ok (.error e) w => ⟨1, lines w.host.reverse, lines [e.message]⟩
  | .abrupt c w => ⟨1, lines w.host.reverse, lines [c.kindName]⟩
  | .fault f w => ⟨1, lines w.host.reverse, lines [f.message]⟩

/-- The version that the program reports. -/
def version : String := "jsse-core 0.1.0"

/-- What the program does with its arguments: 2 is the exit code of improper use. -/
def run (args : List String) : Outcome :=
  match Request.ofArguments? args with
  | none => ⟨2, "", lines ["usage: [--log-level LEVEL] [--max-proto-depth N] tag VALUE... | iterate [VALUE...] [--close-after N]"]⟩
  | some .version => ⟨0, lines [version], ""⟩
  | some (.run config command) =>
    match config.validate with
    | .error e => ⟨1, "", lines [e.message]⟩
    | .ok config => command.run config

end EcmaObjects.CommandLine
