/-
  Converge.Schema.Install — the schema of a SchedulerInstall's spec.
-/
import Converge.Install.Spec
import Converge.Schema.Balancing
import Converge.Schema.Resources

namespace Converge.Schema

/-- The schema of the picker block. -/
def installPicker : Schema :=
  block [
    ("args", list string { description := some "Extra arguments appended after the fixed ones." }),
    ("enabled", switch),
    ("image", string),
    ("name", string),
    ("poolName", string),
    ("poolNamespace", string),
    ("port", number (some "Service port; the container always listens on 9002.")),
    ("replicas", number),
    ("resources", resources),
    ("verbosity", number (some "Value passed to `--v`."))]

/-- The schema of the gateway block. -/
def installGateway : Schema :=
  block [
    ("className", string),
    ("enabled", switch),
    ("listenerPort", number),
    ("listenerProtocol", string),
    ("name", string)]

/-- The schema of the proxy service. -/
def proxy : Schema :=
  record [
    ("name", string),
    ("port", number),
    ("selector", table string {}),
    ("targetPort", number)] [] { default := some (Install.Proxy.toJson {}) }

/-- The schema of the routing block. -/
def routing : Schema :=
  block [
    ("backendType", describedString "`Service` (the proxy service) or `InferencePool`."),
    ("enabled", switch),
    ("httpRouteName", string),
    ("inferencePool", block [
      ("name", string),
      ("namespace", string),
      ("port", number (some "Optional backend port; omitted from the route when zero."))]),
    ("parentGateway", record [
      ("name", string),
      ("namespace", string)] [] { default := some (Install.ParentGateway.toJson {}) })]

/-- The schema of the spec. -/
def install : Schema :=
  record [
    ("destinationRule", balancing),
    ("epp", installPicker),
    ("gateway", installGateway),
    ("proxyService", proxy),
    ("routing", routing),
    ("schedulerNamespace", describedString
      "Namespace for the picker and gateway. Defaults to the root namespace."),
    ("simulatorNamespace", describedString
      "Namespace where the simulator workloads run. Required.")] []
    { description := some ("Installs the inference-scheduling stack (endpoint picker, gateway, "
        ++ "routing and traffic policy) in front of a simulator namespace.") }

end Converge.Schema
