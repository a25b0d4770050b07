/-
  Converge.Install.Children — the objects a SchedulerInstall is to have.

  Children come in the order in which they are applied, each after those it
  refers to.  A child of a kind the cluster does not serve is left out, and so
  is a grant for routes that cannot exist.
-/
import Converge.Capability
import Converge.Install.Defaults
import Converge.Picker
import Converge.TrafficPolicy

namespace Converge.Install

/-- The API group of the pools to which routes lead. -/
def routePoolGroup : String := "inference.networking.k8s.io"

/-- The label on children that are no part of a picker. -/
def rootLabels (root : Root) : Table String String := [(nameLabel, root.name)]

/-! ## §1. Single children -/

/-- The plan of the picker: workload in the scheduler's namespace, access in the
    simulators'. -/
def Picker.plan (root : Root) (s : Spec) (p : Picker) : PickerPlan where
  root := root.name
  name := p.name
  ns := s.schedulerNamespace
  replicas := p.replicas
  image := p.image
  servicePort := p.port
  verbosity := p.verbosity
  poolName := p.poolName
  poolNamespace := p.poolNamespace
  accessNamespace := s.simulatorNamespace
  extraArgs := p.args
  resources := p.resources
  configKey := "epp-config.yaml"
  mountPath := "/etc/epp"
  volumeName := "epp-config"

/-- The gateway in a namespace. -/
def Gateway.child (root : Root) (ns : String) (g : Gateway) : Child :=
  Child.make root ns g.name (rootLabels root)
    (.gateway ⟨g.className, [⟨"default", g.listenerPort, g.listenerProtocol⟩]⟩)

/-- The proxy service in front of the simulator pods. -/
def Spec.proxyChild (root : Root) (s : Spec) : Child :=
  Child.make root s.simulatorNamespace s.proxy.name (rootLabels root)
    (.service ⟨"ClusterIP", s.proxy.selector, [⟨"http", s.proxy.port, s.proxy.targetPort⟩]⟩)

/-- Where the route leads: to the pool when the spec says so and names one,
    otherwise to the proxy service. -/
def Spec.backend (s : Spec) : BackendRef :=
  let pool := (s.routing.filter fun r => r.backendType = poolBackend).bind (·.pool)
  match pool with
  | some p =>
    { group := routePoolGroup
      kind := "InferencePool"
      name := p.name
      ns := some p.ns
      port := if 0 < p.port then some p.port else none
      weight := some 1 }
  | none =>
    { group := ""
      kind := "Service"
      name := s.proxy.name
      ns := some s.simulatorNamespace
      port := some s.proxy.port
      weight := some 1 }

/-- The route from the parent gateway to the backend.  Requests may take as long
    as they need. -/
def Spec.routeChild? (root : Root) (s : Spec) : Option Child :=
  s.routing.map fun r =>
    Child.make root s.schedulerNamespace r.routeName (rootLabels root) (.httpRoute
      { parents := [
          { group := gatewayGroup, kind := "Gateway", name := r.parent.name, ns := some r.parent.ns }]
        rules := [
          { paths := [⟨"PathPrefix", "/"⟩]
            backends := [s.backend]
            timeouts := some ⟨"0s", "0s"⟩ }] })

/-- Leave for routes of the scheduler's namespace to lead into the simulators'. -/
def Spec.grantChild (root : Root) (s : Spec) : Child :=
  Child.make root s.simulatorNamespace (Naming.grant root.name) (rootLabels root) (.referenceGrant
    { sources := [⟨gatewayGroup, "HTTPRoute", s.schedulerNamespace⟩]
      targets := [⟨routePoolGroup, "InferencePool"⟩, ⟨"", "Service"⟩] })

/-! ## §2. All children -/

/-- The children of the picker block. -/
def Spec.pickerChildren (root : Root) (s : Spec) : List Child :=
  match s.picker.filter (·.enabled) with
  | some p => (p.plan root s).children root
  | none => []

/-- The gateway, if it is asked for and can be had. -/
def Spec.gatewayChildren (root : Root) (caps : Capabilities) (s : Spec) : List Child :=
  match s.gateway.filter (·.enabled) with
  | some g => if caps.supports .gateway then [g.child root s.schedulerNamespace] else []
  | none => []

/-- The grant and the route.  The grant needs both kinds, the route its own. -/
def Spec.routingChildren (root : Root) (caps : Capabilities) (s : Spec) : List Child :=
  if s.routing.any (·.enabled) then
    (if caps.supports .httpRoute && caps.supports .referenceGrant then [s.grantChild root] else [])
      ++ (if caps.supports .httpRoute then (s.routeChild? root).toList else [])
  else []

/-- The traffic policy of the proxy service. -/
def Spec.policyChildren (root : Root) (caps : Capabilities) (s : Spec) : List Child :=
  match s.balancing.filter (·.enabled) with
  | some b =>
    if caps.supports .destinationRule
    then [Child.trafficPolicy root s.simulatorNamespace s.proxy.name b] else []
  | none => []

/-- The children of a root with a defaulted spec. -/
def Spec.children (root : Root) (caps : Capabilities) (s : Spec) : List Child :=
  s.pickerChildren root ++ s.gatewayChildren root caps ++ [s.proxyChild root]
    ++ s.routingChildren root caps ++ s.policyChildren root caps

end Converge.Install
