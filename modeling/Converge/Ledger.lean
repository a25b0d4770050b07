/-
  Converge.Ledger — which children were applied for which root.

  For every child the ledger knows whether it is owned, and so goes with its
  root, or only linked, and so outlives it.
-/
import Converge.Key
import Converge.Table

namespace Converge

/-- For every root, its children and whether they are owned. -/
abbrev Ledger := Table Key (Table Key Bool)

namespace Ledger

/-- The children of a root. -/
def children (l : Ledger) (root : Key) : Table Key Bool := (Table.get? l root).getD []

/-- Note that a child was applied for a root. -/
def record (l : Ledger) (root child : Key) (owned : Bool) : Ledger :=
  Table.insert l root (Table.insert (children l root) child owned)

/-- The children of a root that outlive it. -/
def linked (l : Ledger) (root : Key) : List Key :=
  ((children l root).filter fun e => !e.2).map (·.1)

/-- Drop all that is known of a root. -/
def forget (l : Ledger) (root : Key) : Ledger := Table.erase l root

end Ledger

end Converge
