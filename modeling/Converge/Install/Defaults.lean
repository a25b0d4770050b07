/-
  Converge.Install.Defaults — the defaults of a SchedulerInstall's spec, and the
  check of a spec with its defaults.

  Fields derived from others see the values those have after defaulting: the
  route hangs on the gateway and leads to the pool as they are named then.
-/
import Converge.Install.Spec
import Converge.Naming
import Converge.Spec.Defaults
import Converge.Text.Blank

namespace Converge.Install

/-! ## §1. Defaults -/

/-- The pool the picker watches. -/
def poolName : String := "gaie-inference-scheduling"

/-- The backend type that routes to the proxy service. -/
def serviceBackend : String := "Service"

/-- The backend type that routes to an inference pool. -/
def poolBackend : String := "InferencePool"

/-- The labels of the pods behind the proxy. -/
def decodePods : Table String String :=
  [("llm-d.ai/inferenceServing", "true"), ("llm-d.ai/role", "decode")]

/-- The target port follows the port. -/
def Proxy.withDefaults (root : String) (p : Proxy) : Proxy :=
  let port := orNumber p.port servingPort
  { name := orText p.name (Naming.proxy root)
    port
    targetPort := orNumber p.targetPort port
    selector := if p.selector.isEmpty then decodePods else p.selector }

/-- The picker watches a pool in the simulators' namespace unless it says otherwise. -/
def Picker.withDefaults (root simulatorNamespace : String) (p : Picker) : Picker :=
  { p with
    name := orText p.name (Naming.picker root)
    replicas := orNumber p.replicas 1
    image := orText p.image pickerImage
    port := orNumber p.port 9002
    verbosity := orNumber p.verbosity pickerVerbosity
    poolName := orText p.poolName Install.poolName
    poolNamespace := orText p.poolNamespace simulatorNamespace }

/-- The gateway is one of the mesh and listens for plain requests. -/
def Gateway.withDefaults (root : String) (g : Gateway) : Gateway :=
  { g with
    name := orText g.name (Naming.gateway root)
    className := orText g.className "istio"
    listenerPort := orNumber g.listenerPort 80
    listenerProtocol := orText g.listenerProtocol "HTTP" }

/-- What the defaults of a route are taken from. -/
structure RouteContext where
  root : String
  gatewayName : String
  gatewayNamespace : String
  poolName : String
  poolNamespace : String

/-- A route to an inference pool gets a reference to one. -/
def Routing.withDefaults (c : RouteContext) (r : Routing) : Routing :=
  let backendType := orText r.backendType serviceBackend
  { enabled := r.enabled
    backendType
    routeName := orText r.routeName (Naming.route c.root)
    parent := ⟨orText r.parent.name c.gatewayName, orText r.parent.ns c.gatewayNamespace⟩
    pool :=
      if backendType = poolBackend then
        let pool := r.pool.getD {}
        some { pool with name := orText pool.name c.poolName, ns := orText pool.ns c.poolNamespace }
      else r.pool }

/-- A spec with its defaults, for a root of the given name and namespace. -/
def Spec.withDefaults (root ns : String) (s : Spec) : Spec :=
  let schedulerNamespace := orText s.schedulerNamespace ns
  let picker := s.picker.map (Picker.withDefaults root s.simulatorNamespace)
  let gateway := s.gateway.map (Gateway.withDefaults root)
  let context : RouteContext :=
    { root
      gatewayName := (gateway.map (·.name)).getD (Naming.gateway root)
      gatewayNamespace := schedulerNamespace
      poolName := (picker.map (·.poolName)).getD Install.poolName
      poolNamespace := s.simulatorNamespace }
  { schedulerNamespace
    simulatorNamespace := s.simulatorNamespace
    proxy := s.proxy.withDefaults root
    picker
    gateway
    routing := s.routing.map (Routing.withDefaults context)
    balancing := s.balancing.map Balancing.withDefaults }

/-! ## §2. Checks -/

/-- The first fault of a spec, in the order of its blocks.  Disabled blocks are
    checked like enabled ones. -/
def Spec.validate (s : Spec) : Except SpecError Unit := do
  if Text.isBlankText s.simulatorNamespace then .error (.missing "spec.simulatorNamespace")
  Check.port "spec.proxyService.port" s.proxy.port
  Check.port "spec.proxyService.targetPort" s.proxy.targetPort
  Check.each (fun p => do
    Check.positive "spec.epp.replicas" p.replicas
    Check.port "spec.epp.port" p.port
    Check.positive "spec.epp.verbosity" p.verbosity) s.picker
  Check.each (fun g => Check.port "spec.gateway.listenerPort" g.listenerPort) s.gateway
  Check.each (fun r => do
    Check.oneOf "spec.routing.backendType" r.backendType [serviceBackend, poolBackend]
    Check.each (fun p =>
      if p.port = 0 then .ok () else Check.port "spec.routing.inferencePool.port" p.port) r.pool)
    s.routing
  Check.each (Balancing.validate "spec.destinationRule.algorithm") s.balancing

end Converge.Install
