/-
  Converge.Pass.Finalizer — explicit cleanup of linked children.

  Linked children do not go with their root by themselves.  While cleanup is on,
  a finalizer holds the root back until they are deleted, and an annotation
  records every namespace the root has ever linked children into, so that the
  record survives restarts and edits of the spec.
-/
import Converge.Pass.Basic
import Converge.Text.Blank

namespace Converge

namespace Finalizer

/-! ## §1. The record on the root -/

/-- The finalizer of the cleanup. -/
def name : String := "sim.llm-d.io/cross-namespace-cleanup"

/-- The annotation with the namespaces, separated by commas. -/
def recordKey : String := "sim.llm-d.io/linked-namespaces"

/-- Whether a root is held back. -/
def holds (m : Metadata) : Bool := (m.finalizers.getD []).contains name

/-- The namespaces written in a record: blanks around them and empty parts do
    not count. -/
def parseRecord (s : String) : Roster String :=
  Roster.ofList (((Text.split ',' s).map Text.trim).filter fun ns => ns ≠ "")

/-- The text of a record. -/
def printRecord (namespaces : Roster String) : String := Text.joinWith ',' namespaces

/-- The namespaces recorded on a root. -/
def recorded (m : Metadata) : Roster String :=
  match Table.get? (m.annotations.getD []) recordKey with
  | some s => parseRecord s
  | none => []

/-- The metadata with the finalizer and with `linked` on record, if either was
    missing. -/
def hold? (m : Metadata) (linked : Roster String) : Option Metadata :=
  let held :=
    if holds m then m else { m with finalizers := some (m.finalizers.getD [] ++ [name]) }
  if Roster.subset linked (recorded m) then
    if holds m then none else some held
  else
    -- namespaces are added and never dropped, as something may still be there
    let all := Roster.union (recorded m) linked
    some { held with
      annotations := some (Table.insert (m.annotations.getD []) recordKey (printRecord all)) }

/-- The metadata without the finalizer and without the record. -/
def released (m : Metadata) : Metadata :=
  { m with
    finalizers := some ((m.finalizers.getD []).filter fun f => f ≠ name)
    annotations := m.annotations.map fun a => Table.erase a recordKey }

end Finalizer

namespace Pass

/-! ## §2. Holding the root -/

/-- Put the finalizer on a root and `linked` on record; tells whether the root
    was written. -/
def holdRoot (root : Root) (linked : Roster String) : Pass Bool := do
  let stored ← call (.get root.key)
  match stored with
  | none => pure false
  | some o => match Finalizer.hold? o.metadata linked with
    | none => pure false
    | some metadata => do
      let _ ← call (.update root.key { o with metadata })
      pure true

/-! ## §3. Releasing the root -/

/-- The objects of a kind in a namespace that are linked to a root. -/
def linkedObjects (root : Root) (kind : Kind) (ns : String) : Pass (List Key) := do
  let objects ← call (.list kind ns root.linkSelector)
  pure (objects.map fun o => ⟨kind, ns, o.metadata.name.getD ""⟩)

/-- Add the linked objects of every kind and namespace of a list. -/
def collectLinked (root : Root) : List (String × Kind) → Roster Key → Pass (Roster Key)
  | [], found => pure found
  | (ns, kind) :: rest, found => do
    let keys ← linkedObjects root kind ns
    collectLinked root rest (Roster.union found keys)

/-- Delete objects in order. -/
def deleteAll : List Key → Pass Unit
  | [] => pure ()
  | key :: rest => do
    let _ ← call (.delete key)
    deleteAll rest

/-- Delete what is linked to a root outside its namespace: the children the
    ledger knows, and whatever its link labels select in the namespaces on record
    and in `scope`.  Kinds the cluster does not serve are passed over. -/
def deleteLinked (root : Root) (metadata : Metadata) (known : List Key) (scope : Roster String)
    (caps : Capabilities) : Pass Nat := do
  let namespaces := (Roster.union (Finalizer.recorded metadata) scope).filter fun ns => ns ≠ root.ns
  -- what is in the namespace of the root goes with it
  let ours := known.filter fun k => k.ns ≠ root.ns && caps.supports k.kind
  let kinds := Kind.children.filter caps.supports
  let places := namespaces.flatMap fun ns => kinds.map fun kind => (ns, kind)
  let doomed ← collectLinked root places (Roster.ofList ours)
  deleteAll doomed
  pure doomed.length

/-- Forget a root's children and let the root go.  With a scope, what is linked to
    it is deleted first; tells how many objects that were.  A root without the
    finalizer is left alone. -/
def releaseRoot (root : Root) (scope : Option (Roster String)) (caps : Capabilities) :
    Pass Nat := do
  -- the ledger is read before the root is dropped from it
  let known ← request (.linkedChildren root.key)
  let _ ← request (.forget root.key)
  let stored ← call (.get root.key)
  match stored with
  | none => pure 0
  | some o =>
    if Finalizer.holds o.metadata then do
      let deleted ← match scope with
        | some scope => deleteLinked root o.metadata known scope caps
        | none => pure 0
      -- only now, as nobody would delete them once the root is gone
      let _ ← call (.update root.key { o with metadata := Finalizer.released o.metadata })
      pure deleted
    else pure 0

end Pass

end Converge
