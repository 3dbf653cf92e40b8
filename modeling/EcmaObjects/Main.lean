/-
  EcmaObjects.Main — the program: arguments in, outputs and exit code out.
-/

import EcmaObjects.CommandLine.Run

def main (args : List String) : IO UInt32 := do
  let outcome := EcmaObjects.CommandLine.run args
  IO.print outcome.output
  IO.eprint outcome.errors
  return outcome.exitCode.toUInt32
