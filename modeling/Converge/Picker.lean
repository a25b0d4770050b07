/-
  Converge.Picker — the children that make up an endpoint picker.

  An identity, the access it needs, its configuration, the workload and its
  service.  Both kinds of root build their picker from one plan.
-/
import Converge.Child
import Converge.Naming

namespace Converge

/-- Everything in which the pickers of the two kinds of root differ. -/
structure PickerPlan where
  root : String
  name : String
  /-- The namespace of the workload and its service account. -/
  ns : String
  replicas : Int32
  image : String
  servicePort : Int32
  verbosity : Int32
  poolName : String
  /-- The namespace of the pool the picker watches. -/
  poolNamespace : String
  /-- The namespace of the role and its binding. -/
  accessNamespace : String
  extraArgs : List String := []
  resources : Option Resources := none
  configKey : String
  mountPath : String
  volumeName : String
deriving DecidableEq, Repr, Inhabited

namespace PickerPlan

/-! ## §1. Constants -/

/-- The port on which the picker is asked for endpoints. -/
def grpcPort : Int32 := 9002

/-- The port on which the picker tells of its health. -/
def healthPort : Int32 := 9003

/-- The port on which the picker shows its metrics. -/
def metricsPort : Int32 := 9090

/-- The API group of the pools a picker watches. -/
def poolGroup : String := "inference.networking.x-k8s.io"

/-- The scorers, filters and picker of the pipeline and their weights. -/
def pipeline : String := String.intercalate "\n" [
  "apiVersion: inference.networking.x-k8s.io/v1alpha1",
  "kind: EndpointPickerConfig",
  "plugins:",
  "- type: load-aware-scorer",
  "- type: prefix-cache-scorer",
  "  parameters:",
  "    hashBlockSize: 5",
  "    maxPrefixBlocksToMatch: 256",
  "    lruCapacityPerServer: 31250",
  "- type: kv-cache-utilization-scorer",
  "- type: decode-filter",
  "- type: max-score-picker",
  "- type: single-profile-handler",
  "schedulingProfiles:",
  "- name: default",
  "  plugins:",
  "  - pluginRef: decode-filter",
  "  - pluginRef: max-score-picker",
  "  - pluginRef: load-aware-scorer",
  "    weight: 1",
  "  - pluginRef: prefix-cache-scorer",
  "    weight: 2",
  "  - pluginRef: kv-cache-utilization-scorer",
  "    weight: 1",
  ""]

/-! ## §2. The workload -/

/-- The name of the config map with the pipeline. -/
def configName (p : PickerPlan) : String := Naming.pickerConfig p.name

/-- The labels of every part of the picker. -/
def labels (p : PickerPlan) : Table String String :=
  Table.ofEntries [("app", p.name), (nameLabel, p.root), (componentLabel, "epp")]

/-- A path without the slashes at its end. -/
def withoutTrailingSlashes (path : String) : String :=
  String.ofList ((path.toList.reverse.dropWhile (· == '/')).reverse)

/-- The file in which the picker finds its pipeline. -/
def configFile (p : PickerPlan) : String :=
  withoutTrailingSlashes p.mountPath ++ "/" ++ p.configKey

/-- The arguments of the picker: the fixed ones, then those of the spec. -/
def args (p : PickerPlan) : List String :=
  ["--pool-name", p.poolName,
    "--pool-namespace", p.poolNamespace,
    "--pool-group", poolGroup,
    "--zap-encoder", "json",
    "--config-file", p.configFile,
    "--kv-cache-usage-percentage-metric", "vllm:kv_cache_usage_perc",
    "--grpc-port", toString grpcPort.toInt,
    "--grpc-health-port", toString healthPort.toInt,
    "--v", toString p.verbosity.toInt,
    "--tracing=false"] ++ p.extraArgs

/-- The container of the picker. -/
def container (p : PickerPlan) : Container where
  name := "epp"
  image := p.image
  pullPolicy := "IfNotPresent"
  args := p.args
  env := [⟨"NAMESPACE", .field "metadata.namespace"⟩, ⟨"POD_NAME", .field "metadata.name"⟩]
  ports := [⟨"grpc", grpcPort⟩, ⟨"grpc-health", healthPort⟩, ⟨"metrics", metricsPort⟩]
  liveness := some ⟨.tcp healthPort, ⟨5, 10, 1, 1, 3⟩⟩
  readiness := some ⟨.tcp healthPort, ⟨0, 2, 1, 1, 3⟩⟩
  mounts := [⟨p.volumeName, p.mountPath⟩]
  resources := p.resources

/-- The deployment of the picker. -/
def deployment (p : PickerPlan) : Deployment where
  replicas := p.replicas
  selector := p.labels
  podLabels := p.labels
  serviceAccount := some p.name
  containers := [p.container]
  volumes := [⟨p.volumeName, p.configName⟩]

/-! ## §3. The children -/

/-- What the picker may do: watch pods, services and endpoints, and keep pools. -/
def accessRules : List AccessRule :=
  [⟨[""], ["pods", "services", "endpoints"], ["get", "list", "watch"]⟩,
    ⟨[poolGroup], ["inferencepools", "inferenceobjectives"],
      ["get", "list", "watch", "update", "patch"]⟩]

/-- The children of the picker, each after those it refers to. -/
def children (p : PickerPlan) (root : Root) : List Child :=
  [Child.make root p.ns p.name p.labels .serviceAccount,
    Child.make root p.accessNamespace p.name p.labels (.role ⟨accessRules⟩),
    Child.make root p.accessNamespace p.name p.labels (.roleBinding ⟨p.name, p.name, p.ns⟩),
    Child.make root p.ns p.configName p.labels (.configMap [(p.configKey, pipeline)]),
    { Child.make root p.ns p.name p.labels (.deployment p.deployment) with tracked := true },
    Child.make root p.ns p.name p.labels
      (.service ⟨"ClusterIP", p.labels, [⟨"grpc", p.servicePort, grpcPort⟩]⟩)]

end PickerPlan

end Converge
