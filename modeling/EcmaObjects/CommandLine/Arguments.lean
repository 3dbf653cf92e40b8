/-
  EcmaObjects.CommandLine.Arguments — reading the command line.

  Options may stand before the command, where only the global ones are known, and
  among its values. `--name=value` is `--name value`; after `--` everything is a value,
  and before it a value does not start with a dash, a lone dash apart. An option is
  given at most once before the command and once after it, and there it prevails.
  Arguments are read from left to right, and the first error decides.
-/

import EcmaObjects.Config
import EcmaObjects.Decimal.Reading

namespace EcmaObjects.CommandLine

/-! ## What can be asked -/

inductive Command where
  | tag (values : List String)
  | iterate (values : List String) (closeAfter : Option Nat)
  deriving DecidableEq, Repr

inductive Request where
  | version
  | run (config : Config) (command : Command)
  deriving DecidableEq, Repr

/-- The options of one part of the command line, as far as they were given. -/
structure Options where
  logLevel : Option String := none
  maxDepth : Option Nat := none
  closeAfter : Option Nat := none
  deriving DecidableEq, Repr

inductive CommandName where
  | tag
  | iterate
  deriving DecidableEq, Repr

/-! ## Options -/

def logLevels : List String := ["error", "warn", "info", "debug", "trace"]

/-- A level of diagnostics: its name in any case, or its number from 1. -/
def isLogLevel (s : String) : Bool :=
  match Numeral.count? s with
  | some n => 1 ≤ n && n ≤ logLevels.length
  | none => logLevels.contains (String.ofList (s.toList.map Char.toLower))

inductive OptionName where
  | logLevel
  | maxDepth
  | closeAfter
  deriving DecidableEq, Repr

/-- The options known in a part of the command line; the first part has no command yet. -/
def optionName? (part : Option CommandName) (s : String) : Option OptionName :=
  if s = "log-level" then some .logLevel
  else if s = "max-proto-depth" then some .maxDepth
  else if s = "close-after" ∧ part = some .iterate then some .closeAfter
  else none

/-- The options with one more; no answer if it is there already or its argument cannot be read. -/
def Options.set? (o : Options) (name : OptionName) (argument : String) : Option Options :=
  match name with
  | .logLevel => if o.logLevel.isNone && isLogLevel argument then some { o with logLevel := some argument } else none
  | .maxDepth => if o.maxDepth.isNone then (Numeral.count? argument).map fun n => { o with maxDepth := some n } else none
  | .closeAfter =>
    if o.closeAfter.isNone then (Numeral.count? argument).map fun n => { o with closeAfter := some n } else none

/-- Does the argument stand for itself, and not for an option? -/
def isPlain (s : String) : Bool := !s.startsWith "-" || s == "-"

/-- One argument, as it reads before a `--`. -/
inductive Word where
  | plain (s : String)
  | separator
  | option (name : String) (argument : Option String)
  | other

def Word.ofString (s : String) : Word :=
  if isPlain s then .plain s
  else if s = "--" then .separator
  else
    match s.toList with
    | '-' :: '-' :: rest =>
      let name := String.ofList (rest.takeWhile (· != '='))
      match rest.dropWhile (· != '=') with
      | [] => .option name none
      | _ :: argument => .option name (some (String.ofList argument))
    | _ => .other

/-- Does the argument ask for the version? -/
def asksVersion (s : String) : Bool := s == "--version" || s.startsWith "-V"

/-! ## Reading -/

/-- The values and options after the command; the argument `pending` waits for its value. -/
def readValues (name : CommandName) : Option OptionName → Options → List String → List String → Option (Options × List String)
  | none, o, values, [] => some (o, values.reverse)
  | some _, _, _, [] => none
  | some waiting, o, values, s :: rest => do
    guard (isPlain s)
    readValues name none (← o.set? waiting s) values rest
  | none, o, values, s :: rest =>
    match Word.ofString s with
    | .plain v => readValues name none o (v :: values) rest
    | .separator => some (o, values.reverse ++ rest)
    | .other => none
    | .option n argument => do
      let opt ← optionName? (some name) n
      match argument with
      | some a => readValues name none (← o.set? opt a) values rest
      | none => readValues name (some opt) o values rest

/-- A request for a command, from the options before it and the arguments after it. -/
def readCommand (before : Options) (name : CommandName) (args : List String) : Option Request := do
  let (after, values) ← readValues name none {} [] args
  let config : Config := match after.maxDepth <|> before.maxDepth with
    | some n => { maxDepth := n }
    | none => {}
  match name with
  | .tag => do
    guard (!values.isEmpty)
    return .run config (.tag values)
  | .iterate => return .run config (.iterate values after.closeAfter)

def commandName? (s : String) : Option CommandName :=
  if s = "tag" then some .tag else if s = "iterate" then some .iterate else none

/-- Reads the options before the command, then the command. -/
def readOptions : Option OptionName → Options → List String → Option Request
  | _, _, [] => none
  | some waiting, o, s :: rest => do
    guard (isPlain s)
    readOptions none (← o.set? waiting s) rest
  | none, o, s :: rest =>
    if asksVersion s then some .version
    else
      match Word.ofString s with
      | .plain v => do readCommand o (← commandName? v) rest
      | .separator | .other => none
      | .option n argument => do
        let opt ← optionName? none n
        match argument with
        | some a => readOptions none (← o.set? opt a) rest
        | none => readOptions (some opt) o rest

/-- What the arguments ask for; nothing if they are not used properly. -/
def Request.ofArguments? (args : List String) : Option Request := readOptions none {} args

end EcmaObjects.CommandLine
