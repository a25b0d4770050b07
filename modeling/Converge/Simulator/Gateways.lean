/-
  Converge.Simulator.Gateways — the inference gateways of a SimulatorDeployment.

  A standard gateway is an Envoy with a fixed configuration, an Istio gateway a
  proxy outside the mesh.  Both forward every request to one service.
-/
import Converge.Child
import Converge.Naming
import Converge.Simulator.Spec

namespace Converge.Simulator

/-- The makes of gateway. -/
inductive Flavor where
  | standard
  | istio
deriving DecidableEq, Repr, Inhabited

/-- A service and one of its ports. -/
structure Endpoint where
  service : String
  port : Int32
deriving DecidableEq, Repr, Inhabited

/-! ## §1. The Envoy configuration -/

/-- The port on which Envoy is managed. -/
def envoyAdminPort : Int32 := 19000

/-- The port on which Envoy takes requests. -/
def envoyListenerPort : Int32 := 80

/-- The port on which Envoy shows its metrics. -/
def envoyMonitoringPort : Int32 := 9091

/-- The port on which the Istio proxy takes requests. -/
def istioProxyPort : Int32 := 8080

/-- The key of the configuration in its config map. -/
def envoyConfigKey : String := "envoy.yaml"

/-- The configuration that forwards every request to the endpoint. -/
def envoyConfig (backend : Endpoint) : String := String.intercalate "\n" [
  "admin:",
  "  address:",
  "    socket_address:",
  "      address: 0.0.0.0",
  "      port_value: " ++ toString envoyAdminPort.toInt,
  "",
  "static_resources:",
  "  listeners:",
  "  - name: listener_0",
  "    address:",
  "      socket_address:",
  "        address: 0.0.0.0",
  "        port_value: " ++ toString envoyListenerPort.toInt,
  "    filter_chains:",
  "    - filters:",
  "      - name: envoy.filters.network.http_connection_manager",
  "        typed_config:",
  "          \"@type\": type.googleapis.com/envoy.extensions.filters.network.http_connection_manager.v3.HttpConnectionManager",
  "          stat_prefix: ingress_http",
  "          route_config:",
  "            name: local_route",
  "            virtual_hosts:",
  "            - name: backend",
  "              domains: [\"*\"]",
  "              routes:",
  "              - match:",
  "                  prefix: \"/\"",
  "                route:",
  "                  cluster: simulator_cluster",
  "          http_filters:",
  "          - name: envoy.filters.http.router",
  "            typed_config:",
  "              \"@type\": type.googleapis.com/envoy.extensions.filters.http.router.v3.Router",
  "",
  "  clusters:",
  "  - name: simulator_cluster",
  "    connect_timeout: 5s",
  "    type: STRICT_DNS",
  "    lb_policy: ROUND_ROBIN",
  "    load_assignment:",
  "      cluster_name: simulator_cluster",
  "      endpoints:",
  "      - lb_endpoints:",
  "        - endpoint:",
  "            address:",
  "              socket_address:",
  "                address: " ++ backend.service,
  "                port_value: " ++ toString backend.port.toInt,
  ""]

/-! ## §2. Containers -/

/-- The variables that tell a gateway its pod. -/
def podEnv : List EnvVar :=
  [⟨"POD_NAME", .field "metadata.name"⟩, ⟨"POD_NAMESPACE", .field "metadata.namespace"⟩]

/-- The container of a gateway. -/
def GatewayInstance.container (g : GatewayInstance) : Flavor → Container
  | .istio =>
    { name := "istio-proxy"
      image := g.image
      pullPolicy := "IfNotPresent"
      args := ["proxy", "sidecar"]
      env := podEnv
      ports := [⟨"http", istioProxyPort⟩]
      resources := g.resources }
  | .standard =>
    { name := "kgateway-proxy"
      image := g.image
      pullPolicy := "IfNotPresent"
      args := ["--disable-hot-restart", "--service-node", "$(POD_NAME).$(POD_NAMESPACE)",
        "--log-level", "warn", "--component-log-level", "connection:warn,http:warn,upstream:warn"]
      env := podEnv ++ [⟨"ENVOY_UID", .text "0"⟩]
      ports := [⟨"listener-80", envoyListenerPort⟩, ⟨"http-monitoring", envoyMonitoringPort⟩]
      readiness := some ⟨.http "/ready" envoyAdminPort, ⟨5, 10, 1, 1, 3⟩⟩
      startup := some ⟨.http "/ready" envoyAdminPort, ⟨0, 1, 2, 1, 60⟩⟩
      mounts := [⟨"envoy-config", "/etc/envoy"⟩]
      resources := g.resources }

/-! ## §3. Children -/

/-- One gateway to build: its name, make and settings. -/
structure GatewayPlan where
  name : String
  flavor : Flavor
  config : GatewayInstance
deriving DecidableEq, Repr, Inhabited

namespace GatewayPlan

/-- The labels of every part of the gateway.  The name tells the two gateways of
    one root apart. -/
def labels (p : GatewayPlan) (root : Root) : Table String String :=
  let base := Table.ofEntries
    [("app", p.name), (nameLabel, root.name), (componentLabel, "gateway")]
  match p.flavor with
  | .standard => base
  | .istio => Table.insert base "llm-d.ai/gateway-type" "istio"

/-- The port on which the pods take requests. -/
def targetPort (p : GatewayPlan) : Int32 :=
  match p.flavor with
  | .standard => envoyListenerPort
  | .istio => istioProxyPort

/-- The deployment of the gateway. -/
def deployment (p : GatewayPlan) (root : Root) : Deployment where
  replicas := p.config.replicas
  selector := p.labels root
  podLabels := p.labels root
  podAnnotations := match p.flavor with
    | .standard => []
    | .istio => [("sidecar.istio.io/inject", "false")]
  containers := [p.config.container p.flavor]
  volumes := match p.flavor with
    | .standard => [⟨"envoy-config", p.name⟩]
    | .istio => []

/-- The configuration (of a standard gateway), the deployment and the service. -/
def children (p : GatewayPlan) (root : Root) (backend : Endpoint) : List Child :=
  let config := match p.flavor with
    | .standard => [Child.make root root.ns p.name (p.labels root)
        (.configMap [(envoyConfigKey, envoyConfig backend)])]
    | .istio => []
  config ++
    [{ Child.make root root.ns p.name (p.labels root) (.deployment (p.deployment root)) with
        tracked := true },
      Child.make root root.ns p.name (p.labels root)
        (.service ⟨"ClusterIP", p.labels root, [⟨"http", p.config.port, p.targetPort⟩]⟩)]

end GatewayPlan

/-- The enabled gateways of a spec, the standard one first. -/
def Spec.gatewayPlans (root : Root) (s : Spec) : List GatewayPlan :=
  match s.gateways.filter (·.enabled) with
  | none => []
  | some g =>
    ((g.standard.filter (·.enabled)).map fun c =>
        (⟨Naming.simGateway root.name, .standard, c⟩ : GatewayPlan)).toList
      ++ ((g.istio.filter (·.enabled)).map fun c =>
        (⟨Naming.simIstioGateway root.name, .istio, c⟩ : GatewayPlan)).toList

end Converge.Simulator
