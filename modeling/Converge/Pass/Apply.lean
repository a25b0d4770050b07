/-
  Converge.Pass.Apply — bringing children into being or into line.

  A missing child is created, an existing one is written only when it is out of
  line.  Children are applied in order; the first fault ends the pass and leaves
  the ones before it applied.
-/
import Converge.Amend
import Converge.Pass.Basic

namespace Converge

/-- What became of a child. -/
inductive ApplyOutcome where
  | created
  | updated
  | unchanged
deriving DecidableEq, Repr, Inhabited

/-- How many children each outcome befell. -/
structure Tally where
  created : Nat := 0
  updated : Nat := 0
  unchanged : Nat := 0
deriving DecidableEq, Repr, Inhabited

namespace Tally

/-- Whether any child was written. -/
def changed (t : Tally) : Bool := decide (0 < t.created + t.updated)

/-- Count one outcome. -/
def count (t : Tally) : ApplyOutcome → Tally
  | .created => { t with created := t.created + 1 }
  | .updated => { t with updated := t.updated + 1 }
  | .unchanged => { t with unchanged := t.unchanged + 1 }

end Tally

namespace Pass

/-- Write what a child needs, in view of what is stored. -/
def settle (c : Child) : Option Object → Pass ApplyOutcome
  | none => do
    let _ ← call (.create c.key c.toObject)
    pure .created
  | some cur => match c.amend? cur with
    | some next => do
      let _ ← call (.update c.key next)
      pure .updated
    | none => pure .unchanged

/-- Apply one child of a root and note it in the ledger. -/
def apply (root : Key) (c : Child) : Pass ApplyOutcome := do
  let stored ← call (.get c.key)
  let outcome ← settle c stored
  let _ ← request (.record root c.key c.link.isOwned)
  pure outcome

/-- Apply children in order, unless the controller shuts down meanwhile.  That a shutdown abandons
    the apply that is in flight is no run of its own here: the states it leaves are those of a call
    that fails, whether or not it took effect. -/
def applyAll (root : Key) : List Child → Tally → Pass Tally
  | [], tally => pure tally
  | c :: rest, tally => do
    let cancelled ← request .isCancelled
    if cancelled then fail .cancelled
    else do
      let outcome ← apply root c
      applyAll root rest (tally.count outcome)

end Pass

end Converge
