/-
  Converge.Child — one object a root is to have.
-/
import Converge.Body.Basic
import Converge.Object.Basic
import Converge.Root

namespace Converge

/-- A child of a root: where it is, how it hangs on the root, what it is to be. -/
structure Child where
  ns : String
  name : String
  link : Link
  /-- The labels the controller keeps on the child, those of the link apart. -/
  labels : Table String String
  body : Body
  /-- Whether the readiness of the root waits for the child. -/
  tracked : Bool := false
deriving DecidableEq, Repr, Inhabited

/-- The label that names the application. -/
def nameLabel : String := "app.kubernetes.io/name"

/-- The label that names the component. -/
def componentLabel : String := "llm-d.ai/component"

/-- The label that names the role of a pod. -/
def roleLabel : String := "llm-d.ai/role"

/-- The label of pods that answer inference requests. -/
def servingLabel : String := "llm-d.ai/inferenceServing"

namespace Child

/-- A child of `root` in a namespace. -/
def make (root : Root) (ns name : String) (labels : Table String String) (body : Body) : Child :=
  { ns, name, link := root.linkIn ns, labels, body }

/-- The identity of the child. -/
def key (c : Child) : Key := ⟨c.body.kind, c.ns, c.name⟩

/-- All labels the controller keeps on the child. -/
def managedLabels (c : Child) : Table String String :=
  match c.link with
  | .owned _ => c.labels
  | .labelled link => Table.insertAll c.labels link

/-- The object that creates the child.  An owner reference is attached here and
    nowhere else. -/
def toObject (c : Child) : Object where
  types := some ⟨c.body.kind.apiVersion, c.body.kind.name⟩
  metadata :=
    { name := some c.name
      ns := some c.ns
      labels := some c.managedLabels
      owners := match c.link with
        | .owned owner => some [owner]
        | .labelled _ => none }
  data := c.body.toJson

end Child

end Converge
