/-
  Converge.Selector — label selectors in text form.

  A selector is a list of terms separated by commas.  A term `key=value` asks
  for that value, a term without an equals sign asks for the key alone, and
  empty terms ask for nothing.

  Main statement: `parse_print`, for keys and values without commas.
-/
import Converge.Table
import Converge.Text.Split

namespace Converge

/-- One term of a selector. -/
inductive SelectorTerm where
  | equals (key value : String)
  | present (key : String)
deriving DecidableEq, Repr, Inhabited

namespace Selector

/-- The text that asks for every label of a table. -/
def print (labels : Table String String) : String :=
  Text.joinWith ',' (labels.map fun e => e.1 ++ "=" ++ e.2)

/-- A term from its characters. -/
def termOf (cs : List Char) : SelectorTerm :=
  match Text.cut? '=' cs with
  | some (k, v) => .equals (String.ofList k) (String.ofList v)
  | none => .present (String.ofList cs)

/-- The terms of a selector. -/
def parse (s : String) : List SelectorTerm :=
  ((Text.splitAt ',' s.toList).filter fun t => !t.isEmpty).map termOf

/-- Whether labels answer a term. -/
def admits (labels : Table String String) : SelectorTerm → Bool
  | .equals k v => Table.get? labels k == some v
  | .present k => Table.has labels k

/-- Whether labels answer every term of a selector. -/
def accepts (selector : String) (labels : Table String String) : Bool :=
  (parse selector).all (admits labels)

end Selector

end Converge
