/-
  Converge.Simulator.Summary — totals, endpoints and gateway URL in the status.
-/
import Converge.Simulator.Children
import Converge.Status.Basic
import Converge.Status.Readiness

namespace Converge.Simulator

/-- The address of a service's port in a namespace. -/
def url (ns : String) (e : Endpoint) : String :=
  "http://" ++ Naming.host e.service ns ++ ":" ++ toString e.port.toInt

/-- The first observation of the deployment of a name. -/
def observed? (observations : List Observation) (name : String) : Option Observation :=
  observations.find? fun o => o.key.kind = .deployment && o.key.name = name

/-- The status with the totals of the serving workloads, the addresses of their
    services in order, and that of the first gateway. -/
def Spec.summarize (root : Root) (s : Spec) (observations : List Observation)
    (status : Status) : Status :=
  let serving := s.workloads root
  let seen := serving.filterMap fun w => observed? observations w.deployment
  { replicas := (seen.map (·.replicas)).sum
    readyReplicas := (seen.map (·.ready)).sum
    endpoints := serving.map fun w => url root.ns ⟨w.service, w.port⟩
    gatewayUrl := match (s.gatewayPlans root).head? with
      | some p => url root.ns ⟨p.name, p.config.port⟩
      | none => ""
    conditions := status.conditions }

end Converge.Simulator
