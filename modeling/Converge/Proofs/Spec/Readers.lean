/-
  Converge.Proofs.Spec.Readers — what the readers of specs and statuses look at.

  The schemas that a cluster is given and the readers are written apart.  Here each reader is shown
  to look at nothing but the members its schema names: it reads a plain member as before, and a
  block by a reader that keeps to the schema of the block.

  Main statements: `Install.Spec.keeps`, `Simulator.Spec.keeps`, `Install.Status.keeps` and
  `Simulator.Status.keeps`.
-/
import Converge.Proofs.Schema.Widened
import Converge.Schema.Install
import Converge.Schema.Simulator
import Converge.Schema.Status
import Converge.Status.Basic

namespace Converge

open Schema (keeps_record keeps_list keeps_of_isPlain)

/-! ## §1. Blocks of both kinds of spec -/

theorem PoolLimits.keeps (r : Remarks) :
    (Schema.record [("http1MaxPendingRequests", Schema.number),
      ("maxRequestsPerConnection", Schema.number)] [] r).Keeps PoolLimits.ofJson? := by
  refine keeps_record fun ms ns kept => ?_
  simp only [ofJson?, Json.record?, Option.bind_eq_bind, Option.bind_some,
    kept.number "http1MaxPendingRequests" rfl, kept.number "maxRequestsPerConnection" rfl]

theorem Balancing.keeps : Schema.balancing.Keeps Balancing.ofJson? := by
  refine keeps_record fun ms ns kept => ?_
  simp only [ofJson?, Json.record?, Option.bind_eq_bind, Option.bind_some,
    kept.text "algorithm" rfl, kept.flag "enabled" rfl,
    kept.optional (k := "connectionPool") rfl (PoolLimits.keeps _)]

theorem ResourceClaim.keeps : Schema.claim.Keeps ResourceClaim.ofJson? := by
  refine keeps_record fun ms ns kept => ?_
  simp only [ofJson?, Json.members?, Json.optional, Option.bind_eq_bind, Option.bind_some,
    kept.plain "name" rfl, kept.plain "request" rfl]

theorem Resources.keeps : Schema.resources.Keeps Resources.ofJson? := by
  refine keeps_record fun ms ns kept => ?_
  simp only [ofJson?, Json.members?, Option.bind_eq_bind, Option.bind_some,
    kept.optional (k := "claims") rfl (keeps_list ResourceClaim.keeps _),
    kept.optional (k := "limits") rfl (keeps_of_isPlain rfl),
    kept.optional (k := "requests") rfl (keeps_of_isPlain rfl)]

/-! ## §2. The spec of a SchedulerInstall -/

namespace Install

theorem Proxy.keeps : Schema.proxy.Keeps Proxy.ofJson? := by
  refine keeps_record fun ms ns kept => ?_
  simp only [ofJson?, Json.record?, Option.bind_eq_bind, Option.bind_some, kept.text "name" rfl,
    kept.number "port" rfl, kept.number "targetPort" rfl, kept.plain "selector" rfl]

theorem Picker.keeps : Schema.installPicker.Keeps Picker.ofJson? := by
  refine keeps_record fun ms ns kept => ?_
  simp only [ofJson?, Json.record?, Option.bind_eq_bind, Option.bind_some, kept.plain "args" rfl,
    kept.flag "enabled" rfl, kept.text "image" rfl, kept.text "name" rfl, kept.text "poolName" rfl,
    kept.text "poolNamespace" rfl, kept.number "port" rfl, kept.number "replicas" rfl,
    kept.number "verbosity" rfl, kept.optional (k := "resources") rfl Resources.keeps]

theorem Gateway.keeps : Schema.installGateway.Keeps Gateway.ofJson? := by
  refine keeps_record fun ms ns kept => ?_
  simp only [ofJson?, Json.record?, Option.bind_eq_bind, Option.bind_some,
    kept.text "className" rfl, kept.flag "enabled" rfl, kept.number "listenerPort" rfl,
    kept.text "listenerProtocol" rfl, kept.text "name" rfl]

theorem ParentGateway.keeps (r : Remarks) :
    (Schema.record [("name", Schema.string), ("namespace", Schema.string)] [] r).Keeps
      ParentGateway.ofJson? := by
  refine keeps_record fun ms ns kept => ?_
  simp only [ofJson?, Json.record?, Option.bind_eq_bind, Option.bind_some, kept.text "name" rfl,
    kept.text "namespace" rfl]

theorem InferencePool.keeps (r : Remarks) (portText : Option String) :
    (Schema.record [("name", Schema.string), ("namespace", Schema.string),
      ("port", Schema.number portText)] [] r).Keeps InferencePool.ofJson? := by
  refine keeps_record fun ms ns kept => ?_
  simp only [ofJson?, Json.record?, Option.bind_eq_bind, Option.bind_some, kept.text "name" rfl,
    kept.text "namespace" rfl, kept.number "port" rfl]

theorem Routing.keeps : Schema.routing.Keeps Routing.ofJson? := by
  refine keeps_record fun ms ns kept => ?_
  simp only [ofJson?, Json.record?, Option.bind_eq_bind, Option.bind_some,
    kept.text "backendType" rfl, kept.flag "enabled" rfl, kept.text "httpRouteName" rfl,
    kept.optional (k := "inferencePool") rfl (InferencePool.keeps _ _),
    kept.field (k := "parentGateway") rfl (ParentGateway.keeps _)]

theorem Spec.keeps : Schema.install.Keeps Spec.ofJson? := by
  refine keeps_record fun ms ns kept => ?_
  simp only [ofJson?, Json.record?, Option.bind_eq_bind, Option.bind_some,
    kept.optional (k := "destinationRule") rfl Balancing.keeps,
    kept.optional (k := "epp") rfl Picker.keeps, kept.optional (k := "gateway") rfl Gateway.keeps,
    kept.field (k := "proxyService") rfl Proxy.keeps,
    kept.optional (k := "routing") rfl Routing.keeps, kept.text "schedulerNamespace" rfl,
    kept.text "simulatorNamespace" rfl]

end Install

/-! ## §3. The spec of a SimulatorDeployment -/

namespace Simulator

theorem Serving.keeps : Schema.serving.Keeps Serving.ofJson? := by
  refine keeps_record fun ms ns kept => ?_
  simp only [ofJson?, Json.record?, Option.bind_eq_bind, Option.bind_some, kept.text "name" rfl,
    kept.number "port" rfl, kept.text "type" rfl]

theorem Picker.keeps : Schema.scaled.Keeps Picker.ofJson? := by
  refine keeps_record fun ms ns kept => ?_
  simp only [ofJson?, Json.record?, Option.bind_eq_bind, Option.bind_some, kept.flag "enabled" rfl,
    kept.text "image" rfl, kept.number "port" rfl, kept.number "replicas" rfl,
    kept.optional (k := "resources") rfl Resources.keeps]

theorem GatewayInstance.keeps : Schema.scaled.Keeps GatewayInstance.ofJson? := by
  refine keeps_record fun ms ns kept => ?_
  simp only [ofJson?, Json.record?, Option.bind_eq_bind, Option.bind_some, kept.flag "enabled" rfl,
    kept.text "image" rfl, kept.number "port" rfl, kept.number "replicas" rfl,
    kept.optional (k := "resources") rfl Resources.keeps]

theorem Stage.keeps : Schema.stage.Keeps Stage.ofJson? := by
  refine keeps_record fun ms ns kept => ?_
  simp only [ofJson?, Json.record?, Option.bind_eq_bind, Option.bind_some, kept.plain "args" rfl,
    kept.flag "enabled" rfl, kept.text "image" rfl, kept.number "port" rfl,
    kept.number "replicas" rfl, kept.optional (k := "resources") rfl Resources.keeps]

theorem Gateways.keeps : Schema.gateways.Keeps Gateways.ofJson? := by
  refine keeps_record fun ms ns kept => ?_
  simp only [ofJson?, Json.record?, Option.bind_eq_bind, Option.bind_some, kept.flag "enabled" rfl,
    kept.optional (k := "istio") rfl GatewayInstance.keeps,
    kept.optional (k := "standard") rfl GatewayInstance.keeps]

theorem Spec.keeps : Schema.simulator.Keeps Spec.ofJson? := by
  refine keeps_record fun ms ns kept => ?_
  simp only [ofJson?, Json.record?, Option.bind_eq_bind, Option.bind_some,
    kept.optional (k := "decode") rfl Stage.keeps, kept.optional (k := "epp") rfl Picker.keeps,
    kept.text "image" rfl, kept.optional (k := "inferenceGateway") rfl Gateways.keeps,
    kept.optional (k := "loadBalancing") rfl Balancing.keeps,
    kept.optional (k := "prefill") rfl Stage.keeps, kept.number "replicas" rfl,
    kept.optional (k := "resources") rfl Resources.keeps,
    kept.field (k := "service") rfl Serving.keeps]

end Simulator

/-! ## §4. Statuses -/

theorem Condition.keeps : Schema.condition.Keeps Condition.ofJson? := by
  refine keeps_record fun ms ns kept => ?_
  simp only [ofJson?, Json.fullRecord?, Json.members?, Json.optional, Json.required,
    Option.bind_eq_bind, Option.bind_some, kept.plain "lastTransitionTime" rfl,
    kept.plain "observedGeneration" rfl, kept.plain "status" rfl, kept.plain "type" rfl,
    kept.text "message" rfl, kept.text "reason" rfl]

theorem Install.Status.keeps : Schema.installStatus.Keeps Install.Status.ofJson? := by
  refine keeps_record fun ms ns kept => ?_
  simp only [ofJson?, Json.record?, Option.bind_eq_bind, Option.bind_some,
    kept.field (k := "conditions") rfl (keeps_list Condition.keeps _)]

theorem Simulator.Status.keeps : Schema.simulatorStatus.Keeps Simulator.Status.ofJson? := by
  refine keeps_record fun ms ns kept => ?_
  simp only [ofJson?, Json.record?, Option.bind_eq_bind, Option.bind_some,
    kept.field (k := "conditions") rfl (keeps_list Condition.keeps _), kept.plain "endpoints" rfl,
    kept.text "gatewayURL" rfl, kept.number "readyReplicas" rfl, kept.number "replicas" rfl]

end Converge
