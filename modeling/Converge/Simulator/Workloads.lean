/-
  Converge.Simulator.Workloads — the deployments that serve models.

  One deployment per enabled stage, or a single decode deployment when no stage
  is enabled, each with a service of its own.
-/
import Converge.Child
import Converge.Naming
import Converge.Simulator.Gateways

namespace Converge.Simulator

/-- The name of the prefill stage. -/
def prefillStage : String := "prefill"

/-- The name of the decode stage. -/
def decodeStage : String := "decode"

/-- One serving deployment and the service in front of it. -/
structure Workload where
  stage : String
  deployment : String
  service : String
  serviceType : String
  replicas : Int32
  image : String
  port : Int32
  resources : Option Resources := none
  extraArgs : List String := []
deriving DecidableEq, Repr, Inhabited

namespace Workload

/-- The labels of the pods and of both children. -/
def labels (w : Workload) (root : Root) : Table String String :=
  Table.ofEntries [(roleLabel, w.stage), (servingLabel, "true"), (nameLabel, root.name)]

/-- The arguments of the simulator: the fixed ones, then those of the spec. -/
def args (w : Workload) : List String :=
  ["--model", "random", "--mode", "random", "--port", toString w.port.toInt] ++ w.extraArgs

/-- The container.  Its image is loaded into the nodes beforehand. -/
def container (w : Workload) : Container where
  name := w.stage
  image := w.image
  pullPolicy := "Never"
  args := w.args
  ports := [⟨"http", w.port⟩]
  resources := w.resources

/-- The deployment and its service. -/
def children (w : Workload) (root : Root) : List Child :=
  [{ Child.make root root.ns w.deployment (w.labels root) (.deployment
        { replicas := w.replicas
          selector := w.labels root
          podLabels := w.labels root
          containers := [w.container] }) with tracked := true },
    Child.make root root.ns w.service (w.labels root)
      (.service ⟨w.serviceType, w.labels root, [⟨"http", w.port, w.port⟩]⟩)]

end Workload

/-- The workload of a stage. -/
def Stage.workload (root : Root) (name : String) (s : Stage) : Workload where
  stage := name
  deployment := Naming.stage root.name name
  service := Naming.stage root.name name
  serviceType := "ClusterIP"
  replicas := s.replicas
  image := s.image
  port := s.port
  resources := s.resources
  extraArgs := s.args

/-- The workload of a spec without stages. -/
def Spec.unstagedWorkload (root : Root) (s : Spec) : Workload where
  stage := decodeStage
  deployment := Naming.unstaged root.name
  service := s.service.name
  serviceType := s.service.type
  replicas := s.replicas
  image := s.image
  port := s.service.port
  resources := s.resources

/-- The serving workloads in the order in which they are applied. -/
def Spec.workloads (root : Root) (s : Spec) : List Workload :=
  if s.staged then
    ((s.prefill.filter (·.enabled)).map (Stage.workload root prefillStage)).toList
      ++ ((s.decode.filter (·.enabled)).map (Stage.workload root decodeStage)).toList
  else [s.unstagedWorkload root]

/-- The service that takes requests: that of the decode workload if there is
    one, otherwise that of the first. -/
def Spec.serving (root : Root) (s : Spec) : Endpoint :=
  let all := s.workloads root
  match (all.find? fun w => w.stage = decodeStage).orElse fun _ => all.head? with
  | some w => ⟨w.service, w.port⟩
  | none => ⟨s.service.name, s.service.port⟩

end Converge.Simulator
