/-
  Converge.Body.Basic — the typed body of a child.
-/
import Converge.Body.Access
import Converge.Body.Route
import Converge.Body.Traffic
import Converge.Body.Workload

namespace Converge

/-- What a child is to be, apart from its metadata. -/
inductive Body where
  | serviceAccount
  | role (r : Role)
  | roleBinding (b : RoleBinding)
  | configMap (data : Table String String)
  | deployment (d : Deployment)
  | service (s : Service)
  | gateway (g : Gateway)
  | httpRoute (r : HttpRoute)
  | referenceGrant (g : ReferenceGrant)
  | destinationRule (d : DestinationRule)
deriving DecidableEq, Repr, Inhabited

namespace Body

/-- The kind of object a body belongs to. -/
def kind : Body → Kind
  | serviceAccount => .serviceAccount
  | role _ => .role
  | roleBinding _ => .roleBinding
  | configMap _ => .configMap
  | deployment _ => .deployment
  | service _ => .service
  | gateway _ => .gateway
  | httpRoute _ => .httpRoute
  | referenceGrant _ => .referenceGrant
  | destinationRule _ => .destinationRule

/-- The wire form of a body: the members of the object beside its type
    information and metadata. -/
def toJson : Body → Json
  | serviceAccount => .obj []
  | role r => r.bodyJson
  | roleBinding b => b.bodyJson
  | configMap data => .obj [("data", .ofTexts data)]
  | deployment d => .obj [("spec", d.specJson)]
  | service s => .obj [("spec", s.specJson)]
  | gateway g => .obj [("spec", g.toJson)]
  | httpRoute r => .obj [("spec", r.toJson)]
  | referenceGrant g => .obj [("spec", g.toJson)]
  | destinationRule d => .obj [("spec", d.toJson)]

end Body

end Converge
