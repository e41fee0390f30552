import ConsLisp.Demo

/-!
# The command

Runs the demonstration.
-/

/-- Writes the demonstration to the standard streams, expression by expression. -/
def main : IO Unit := do
  for entry in ConsLisp.Demo.transcript do
    IO.print entry.out
    IO.eprint entry.err
