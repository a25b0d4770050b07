/-
  Converge.Install.Spec — what a SchedulerInstall asks for.

  An inference-scheduling stack (endpoint picker, gateway, routing and traffic
  policy) in front of the namespace in which the simulators run.  Every block
  but the proxy is optional, and every missing field has its zero value.
-/
import Converge.Spec.Balancing
import Converge.Spec.Resources

namespace Converge.Install

/-! ## §1. Blocks -/

/-- The service in front of the simulator pods. -/
structure Proxy where
  name : String := ""
  port : Int32 := 0
  targetPort : Int32 := 0
  selector : Table String String := []
deriving DecidableEq, Repr, Inhabited

/-- The endpoint picker. -/
structure Picker where
  enabled : Bool := false
  name : String := ""
  replicas : Int32 := 0
  image : String := ""
  port : Int32 := 0
  verbosity : Int32 := 0
  args : List String := []
  poolName : String := ""
  poolNamespace : String := ""
  resources : Option Resources := none
deriving DecidableEq, Repr, Inhabited

/-- The gateway through which requests arrive. -/
structure Gateway where
  enabled : Bool := false
  name : String := ""
  className : String := ""
  listenerPort : Int32 := 0
  listenerProtocol : String := ""
deriving DecidableEq, Repr, Inhabited

/-- The gateway a route hangs on. -/
structure ParentGateway where
  name : String := ""
  ns : String := ""
deriving DecidableEq, Repr, Inhabited

/-- An inference pool a route may lead to; port zero means no port. -/
structure InferencePool where
  name : String := ""
  ns : String := ""
  port : Int32 := 0
deriving DecidableEq, Repr, Inhabited

/-- The route from the gateway to the proxy service or an inference pool. -/
structure Routing where
  enabled : Bool := false
  backendType : String := ""
  pool : Option InferencePool := none
  routeName : String := ""
  parent : ParentGateway := {}
deriving DecidableEq, Repr, Inhabited

/-- The whole spec. -/
structure Spec where
  schedulerNamespace : String := ""
  simulatorNamespace : String := ""
  proxy : Proxy := {}
  picker : Option Picker := none
  gateway : Option Gateway := none
  routing : Option Routing := none
  balancing : Option Balancing := none
deriving DecidableEq, Repr, Inhabited

/-! ## §2. Wire forms -/

namespace Proxy

/-- The wire form of a proxy block. -/
def toJson (p : Proxy) : Json :=
  .obj (Json.textMember "name" p.name
    ++ [("port", .ofInt32 p.port)]
    ++ Json.memberIf (!p.selector.isEmpty) "selector" (.ofTexts p.selector)
    ++ [("targetPort", .ofInt32 p.targetPort)])

/-- The proxy block of a wire form. -/
def ofJson? (v : Json) : Option Proxy := do
  let ms ← v.record? ["name", "port", "targetPort", "selector"]
  let name ← Json.textField ms "name"
  let port ← Json.numberField ms "port"
  let targetPort ← Json.numberField ms "targetPort"
  let selector ← Json.field ms "selector" (some []) Json.texts?
  pure { name, port, targetPort, selector }

end Proxy

namespace Picker

/-- The wire form of a picker block. -/
def toJson (p : Picker) : Json :=
  .obj (Json.listMember "args" .str p.args
    ++ [("enabled", .bool p.enabled)]
    ++ Json.textMember "image" p.image
    ++ Json.textMember "name" p.name
    ++ Json.textMember "poolName" p.poolName
    ++ Json.textMember "poolNamespace" p.poolNamespace
    ++ [("port", .ofInt32 p.port), ("replicas", .ofInt32 p.replicas)]
    ++ Json.memberOf "resources" Resources.toJson p.resources
    ++ [("verbosity", .ofInt32 p.verbosity)])

/-- The picker block of a wire form. -/
def ofJson? (v : Json) : Option Picker := do
  let ms ← v.record? ["enabled", "name", "replicas", "image", "port", "verbosity", "args",
    "poolName", "poolNamespace", "resources"]
  let args ← Json.field ms "args" (some []) (Json.listOf? Json.text?)
  let enabled ← Json.boolField ms "enabled"
  let image ← Json.textField ms "image"
  let name ← Json.textField ms "name"
  let poolName ← Json.textField ms "poolName"
  let poolNamespace ← Json.textField ms "poolNamespace"
  let port ← Json.numberField ms "port"
  let replicas ← Json.numberField ms "replicas"
  let resources ← Json.optional ms "resources" Resources.ofJson?
  let verbosity ← Json.numberField ms "verbosity"
  pure { enabled, name, replicas, image, port, verbosity, args, poolName, poolNamespace, resources }

end Picker

namespace Gateway

/-- The wire form of a gateway block. -/
def toJson (g : Gateway) : Json :=
  .obj (Json.textMember "className" g.className
    ++ [("enabled", .bool g.enabled), ("listenerPort", .ofInt32 g.listenerPort)]
    ++ Json.textMember "listenerProtocol" g.listenerProtocol
    ++ Json.textMember "name" g.name)

/-- The gateway block of a wire form. -/
def ofJson? (v : Json) : Option Gateway := do
  let ms ← v.record? ["enabled", "name", "className", "listenerPort", "listenerProtocol"]
  let className ← Json.textField ms "className"
  let enabled ← Json.boolField ms "enabled"
  let listenerPort ← Json.numberField ms "listenerPort"
  let listenerProtocol ← Json.textField ms "listenerProtocol"
  let name ← Json.textField ms "name"
  pure { enabled, name, className, listenerPort, listenerProtocol }

end Gateway

namespace ParentGateway

/-- The wire form of a parent gateway. -/
def toJson (p : ParentGateway) : Json :=
  .obj (Json.textMember "name" p.name ++ Json.textMember "namespace" p.ns)

/-- The parent gateway of a wire form. -/
def ofJson? (v : Json) : Option ParentGateway := do
  let ms ← v.record? ["name", "namespace"]
  let name ← Json.textField ms "name"
  let ns ← Json.textField ms "namespace"
  pure { name, ns }

end ParentGateway

namespace InferencePool

/-- The wire form of a pool reference. -/
def toJson (p : InferencePool) : Json :=
  .obj (Json.textMember "name" p.name
    ++ Json.textMember "namespace" p.ns
    ++ [("port", .ofInt32 p.port)])

/-- The pool reference of a wire form. -/
def ofJson? (v : Json) : Option InferencePool := do
  let ms ← v.record? ["name", "namespace", "port"]
  let name ← Json.textField ms "name"
  let ns ← Json.textField ms "namespace"
  let port ← Json.numberField ms "port"
  pure { name, ns, port }

end InferencePool

namespace Routing

/-- The wire form of a routing block. -/
def toJson (r : Routing) : Json :=
  .obj (Json.textMember "backendType" r.backendType
    ++ [("enabled", .bool r.enabled)]
    ++ Json.textMember "httpRouteName" r.routeName
    ++ Json.memberOf "inferencePool" InferencePool.toJson r.pool
    ++ [("parentGateway", r.parent.toJson)])

/-- The routing block of a wire form. -/
def ofJson? (v : Json) : Option Routing := do
  let ms ← v.record? ["enabled", "backendType", "inferencePool", "httpRouteName", "parentGateway"]
  let backendType ← Json.textField ms "backendType"
  let enabled ← Json.boolField ms "enabled"
  let routeName ← Json.textField ms "httpRouteName"
  let pool ← Json.optional ms "inferencePool" InferencePool.ofJson?
  let parent ← Json.field ms "parentGateway" (some {}) ParentGateway.ofJson?
  pure { enabled, backendType, pool, routeName, parent }

end Routing

namespace Spec

/-- The wire form of a spec. -/
def toJson (s : Spec) : Json :=
  .obj (Json.memberOf "destinationRule" Balancing.toJson s.balancing
    ++ Json.memberOf "epp" Picker.toJson s.picker
    ++ Json.memberOf "gateway" Gateway.toJson s.gateway
    ++ [("proxyService", s.proxy.toJson)]
    ++ Json.memberOf "routing" Routing.toJson s.routing
    ++ Json.textMember "schedulerNamespace" s.schedulerNamespace
    ++ Json.textMember "simulatorNamespace" s.simulatorNamespace)

/-- The spec of a wire form. -/
def ofJson? (v : Json) : Option Spec := do
  let ms ← v.record? ["schedulerNamespace", "simulatorNamespace", "proxyService", "epp", "gateway",
    "routing", "destinationRule"]
  let balancing ← Json.optional ms "destinationRule" Balancing.ofJson?
  let picker ← Json.optional ms "epp" Picker.ofJson?
  let gateway ← Json.optional ms "gateway" Gateway.ofJson?
  let proxy ← Json.field ms "proxyService" (some {}) Proxy.ofJson?
  let routing ← Json.optional ms "routing" Routing.ofJson?
  let schedulerNamespace ← Json.textField ms "schedulerNamespace"
  let simulatorNamespace ← Json.textField ms "simulatorNamespace"
  pure { schedulerNamespace, simulatorNamespace, proxy, picker, gateway, routing, balancing }

end Spec

end Converge.Install
