import ExprOpt.CommandLine

/-!
# The program

Writes what the command line leaves behind.
-/

/-- Runs the command line on the program's arguments. -/
def main (args : List String) : IO UInt32 := do
  let outcome := ExprOpt.CommandLine.run args
  IO.print outcome.stdout
  IO.eprint outcome.stderr
  return outcome.exit.toUInt32
