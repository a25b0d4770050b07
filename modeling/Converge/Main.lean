/-
  Converge.Main — the command that prints the definitions of both kinds of root.
-/
import Converge.Schema.Definition

/-- Print the definitions. -/
def main : IO Unit := IO.print Converge.definitionsText
