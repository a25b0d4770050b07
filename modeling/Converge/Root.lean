/-
  Converge.Root — the identity of a root, and how its children hang on it.

  A child in the root's namespace carries an owner reference and goes when the
  root goes.  Owner references do not cross namespaces, so a child elsewhere is
  linked to its root by two labels.
-/
import Converge.Key
import Converge.Object.Metadata
import Converge.Selector

namespace Converge

/-- The kinds of root. -/
inductive RootKind where
  | schedulerInstall
  | simulatorDeployment
deriving DecidableEq, Repr, Inhabited

namespace RootKind

/-- A kind of root as a kind of object. -/
def kind : RootKind → Kind
  | schedulerInstall => .schedulerInstall
  | simulatorDeployment => .simulatorDeployment

/-- The kind of root of a kind of object. -/
def ofKind? : Kind → Option RootKind
  | .schedulerInstall => some schedulerInstall
  | .simulatorDeployment => some simulatorDeployment
  | _ => none

/-- The keys of the labels that name the root and its namespace. -/
def linkKeys : RootKind → String × String
  | schedulerInstall => ("sim.llm-d.io/schedulerInstall", "sim.llm-d.io/schedulerNamespace")
  | simulatorDeployment => ("sim.llm-d.io/simulatorDeployment", "sim.llm-d.io/simulatorNamespace")

end RootKind

/-- The identity of a root. -/
structure Root where
  kind : RootKind
  name : String
  ns : String
  uid : String
deriving DecidableEq, Repr, Inhabited

/-- How a child hangs on its root. -/
inductive Link where
  /-- By an owner reference. -/
  | owned (owner : OwnerReference)
  /-- By labels. -/
  | labelled (labels : Table String String)
deriving DecidableEq, Repr, Inhabited

namespace Link

/-- Whether the child goes with its root by itself. -/
def isOwned : Link → Bool
  | owned _ => true
  | labelled _ => false

end Link

namespace Root

/-- The key of the root object. -/
def key (r : Root) : Key := ⟨r.kind.kind, r.ns, r.name⟩

/-- The reference that makes the root the owner of an object. -/
def ownerReference (r : Root) : OwnerReference where
  apiVersion := r.kind.kind.apiVersion
  kind := r.kind.kind.name
  name := r.name
  uid := r.uid
  controller := some true
  blockOwnerDeletion := some true

/-- The labels that link an object to the root. -/
def linkLabels (r : Root) : Table String String :=
  Table.ofEntries [(r.kind.linkKeys.1, r.name), (r.kind.linkKeys.2, r.ns)]

/-- The selector of the objects linked to the root. -/
def linkSelector (r : Root) : String := Selector.print r.linkLabels

/-- How a child in a namespace hangs on the root. -/
def linkIn (r : Root) (ns : String) : Link :=
  if ns = r.ns then .owned r.ownerReference else .labelled r.linkLabels

/-- The root of an object of a root kind: a missing name falls back to the
    prefix names are generated from, a missing namespace to `default`. -/
def ofMetadata (kind : RootKind) (m : Metadata) : Root where
  kind := kind
  name := (m.name.orElse fun _ => m.generateName).getD ""
  ns := m.ns.getD "default"
  uid := m.uid.getD ""

end Root

end Converge
