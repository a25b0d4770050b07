/-
  Converge.Body.Workload — deployments and the services in front of them.
-/
import Converge.Body.Pod

namespace Converge

/-- A deployment: how many pods, which pods are its own, and what a pod is. -/
structure Deployment where
  replicas : Int32
  selector : Table String String
  podLabels : Table String String
  podAnnotations : Table String String := []
  serviceAccount : Option String := none
  containers : List Container := []
  volumes : List Volume := []
deriving DecidableEq, Repr, Inhabited

namespace Deployment

/-- The spec of a deployment's wire form. -/
def specJson (d : Deployment) : Json :=
  .obj [("replicas", .ofInt32 d.replicas),
    ("selector", .obj [("matchLabels", .ofTexts d.selector)]),
    ("template", .obj [
      ("metadata", .obj (
        Json.memberIf (!d.podAnnotations.isEmpty) "annotations" (.ofTexts d.podAnnotations)
          ++ [("labels", .ofTexts d.podLabels)])),
      ("spec", .obj (
        [("containers", .arr (d.containers.map Container.toJson))]
          ++ Json.memberOf "serviceAccountName" .str d.serviceAccount
          ++ Json.listMember "volumes" Volume.toJson d.volumes))])]

end Deployment

/-- A port of a service and the port of the pods behind it. -/
structure ServicePort where
  name : String
  port : Int32
  target : Int32
deriving DecidableEq, Repr, Inhabited

/-- The wire form of a service port. The protocol is always TCP. -/
def ServicePort.toJson (p : ServicePort) : Json :=
  .obj [("name", .str p.name), ("port", .ofInt32 p.port), ("protocol", .str "TCP"),
    ("targetPort", .ofInt32 p.target)]

/-- A service in front of the pods its selector matches. -/
structure Service where
  type : String
  selector : Table String String
  ports : List ServicePort
deriving DecidableEq, Repr, Inhabited

namespace Service

/-- The spec of a service's wire form. -/
def specJson (s : Service) : Json :=
  .obj [("ports", .arr (s.ports.map ServicePort.toJson)),
    ("selector", .ofTexts s.selector),
    ("type", .str s.type)]

/-- A service with type information and empty metadata. -/
def toJson (s : Service) : Json :=
  .obj [("apiVersion", .str "v1"), ("kind", .str "Service"), ("metadata", .obj []),
    ("spec", s.specJson)]

end Service

end Converge
