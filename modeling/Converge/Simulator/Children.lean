/-
  Converge.Simulator.Children — the objects a SimulatorDeployment is to have.

  Children come in the order in which they are applied: the picker, the
  gateways, the serving workloads, the traffic policy.
-/
import Converge.Capability
import Converge.Picker
import Converge.Simulator.Workloads
import Converge.Spec.Defaults
import Converge.TrafficPolicy

namespace Converge.Simulator

/-- The plan of the picker: everything in the root's namespace. -/
def Picker.plan (root : Root) (p : Picker) : PickerPlan where
  root := root.name
  name := Naming.simPicker root.name
  ns := root.ns
  replicas := p.replicas
  image := p.image
  servicePort := p.port
  verbosity := pickerVerbosity
  poolName := "gaie-sim"
  poolNamespace := root.ns
  accessNamespace := root.ns
  resources := p.resources
  configKey := "default-plugins.yaml"
  mountPath := "/config"
  volumeName := "plugins-config-volume"

/-- The children of the picker block. -/
def Spec.pickerChildren (root : Root) (s : Spec) : List Child :=
  match s.picker.filter (·.enabled) with
  | some p => (p.plan root).children root
  | none => []

/-- The children of the gateways, which forward to the serving service. -/
def Spec.gatewayChildren (root : Root) (s : Spec) : List Child :=
  (s.gatewayPlans root).flatMap fun p => p.children root (s.serving root)

/-- The children of the serving workloads. -/
def Spec.workloadChildren (root : Root) (s : Spec) : List Child :=
  (s.workloads root).flatMap fun w => w.children root

/-- The traffic policy of the serving service. -/
def Spec.policyChildren (root : Root) (caps : Capabilities) (s : Spec) : List Child :=
  match s.balancing.filter (·.enabled) with
  | some b =>
    if caps.supports .destinationRule
    then [Child.trafficPolicy root root.ns (s.serving root).service b] else []
  | none => []

/-- The children of a root with a defaulted spec. -/
def Spec.children (root : Root) (caps : Capabilities) (s : Spec) : List Child :=
  s.pickerChildren root ++ s.gatewayChildren root ++ s.workloadChildren root
    ++ s.policyChildren root caps

end Converge.Simulator
