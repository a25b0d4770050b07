/-
  Converge.Body.Pod — containers and what they are made of.

  Only members the controller sets are there.  A list that would be empty and an
  option without a value are not written; arguments always are.
-/
import Converge.Json.Codec
import Converge.Spec.Resources

namespace Converge

/-! ## §1. Ports and environment -/

/-- A named TCP port of a container. -/
structure ContainerPort where
  name : String
  port : Int32
deriving DecidableEq, Repr, Inhabited

/-- The wire form of a container port. The protocol is always TCP. -/
def ContainerPort.toJson (p : ContainerPort) : Json :=
  .obj [("containerPort", .ofInt32 p.port), ("name", .str p.name), ("protocol", .str "TCP")]

/-- Where the value of an environment variable comes from. -/
inductive EnvSource where
  | text (value : String)
  | field (path : String)
deriving DecidableEq, Repr, Inhabited

/-- An environment variable. -/
structure EnvVar where
  name : String
  source : EnvSource
deriving DecidableEq, Repr, Inhabited

/-- The wire form of a variable. -/
def EnvVar.toJson (e : EnvVar) : Json :=
  match e.source with
  | .text value => .obj [("name", .str e.name), ("value", .str value)]
  | .field path => .obj [("name", .str e.name),
      ("valueFrom", .obj [("fieldRef",
        .obj [("apiVersion", .str "v1"), ("fieldPath", .str path)])])]

/-! ## §2. Probes -/

/-- The numbers of a probe, times in seconds. -/
structure Timing where
  initialDelay : Int32
  period : Int32
  timeout : Int32
  success : Int32
  failure : Int32
deriving DecidableEq, Repr, Inhabited

/-- What a probe asks. -/
inductive ProbeTarget where
  | tcp (port : Int32)
  | http (path : String) (port : Int32)
deriving DecidableEq, Repr, Inhabited

/-- A health probe. -/
structure Probe where
  target : ProbeTarget
  timing : Timing
deriving DecidableEq, Repr, Inhabited

/-- The port a probe asks. -/
def Probe.port (p : Probe) : Int32 :=
  match p.target with
  | .tcp port => port
  | .http _ port => port

/-- An initial delay of zero is not written. -/
def Probe.toJson (p : Probe) : Json :=
  let t := p.timing
  let http : List (String × Json) := match p.target with
    | .http path port => [("httpGet",
        .obj [("path", .str path), ("port", .ofInt32 port), ("scheme", .str "HTTP")])]
    | .tcp _ => []
  let tcp : List (String × Json) := match p.target with
    | .tcp port => [("tcpSocket", .obj [("port", .ofInt32 port)])]
    | .http _ _ => []
  .obj ([("failureThreshold", .ofInt32 t.failure)]
    ++ http
    ++ Json.memberIf (decide (0 < t.initialDelay)) "initialDelaySeconds" (.ofInt32 t.initialDelay)
    ++ [("periodSeconds", .ofInt32 t.period), ("successThreshold", .ofInt32 t.success)]
    ++ tcp
    ++ [("timeoutSeconds", .ofInt32 t.timeout)])

/-! ## §3. Volumes -/

/-- A read-only place at which a container sees a volume. -/
structure VolumeMount where
  name : String
  path : String
deriving DecidableEq, Repr, Inhabited

/-- The wire form of a mount. All mounts are read-only. -/
def VolumeMount.toJson (m : VolumeMount) : Json :=
  .obj [("mountPath", .str m.path), ("name", .str m.name), ("readOnly", .bool true)]

/-- A volume with the files of a config map. -/
structure Volume where
  name : String
  configMap : String
deriving DecidableEq, Repr, Inhabited

/-- The mode of the files in a volume: readable by all, written by the owner. -/
def fileMode : Int := 420

/-- The wire form of a volume. Its files have the same mode. -/
def Volume.toJson (v : Volume) : Json :=
  .obj [("configMap", .obj [("defaultMode", .int fileMode), ("name", .str v.configMap)]),
    ("name", .str v.name)]

/-! ## §4. Containers -/

/-- A container. -/
structure Container where
  name : String
  image : String
  pullPolicy : String
  args : List String
  env : List EnvVar := []
  ports : List ContainerPort := []
  liveness : Option Probe := none
  readiness : Option Probe := none
  startup : Option Probe := none
  mounts : List VolumeMount := []
  resources : Option Resources := none
deriving DecidableEq, Repr, Inhabited

/-- The wire form of a container. -/
def Container.toJson (c : Container) : Json :=
  .obj ([("args", .ofStrings c.args)]
    ++ Json.listMember "env" EnvVar.toJson c.env
    ++ [("image", .str c.image), ("imagePullPolicy", .str c.pullPolicy)]
    ++ Json.memberOf "livenessProbe" Probe.toJson c.liveness
    ++ [("name", .str c.name)]
    ++ Json.listMember "ports" ContainerPort.toJson c.ports
    ++ Json.memberOf "readinessProbe" Probe.toJson c.readiness
    ++ Json.memberOf "resources" Resources.toJson c.resources
    ++ Json.memberOf "startupProbe" Probe.toJson c.startup
    ++ Json.listMember "volumeMounts" VolumeMount.toJson c.mounts)

end Converge
