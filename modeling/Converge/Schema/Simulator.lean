/-
  Converge.Schema.Simulator — the schema of a SimulatorDeployment's spec.
-/
import Converge.Schema.Balancing
import Converge.Schema.Resources
import Converge.Simulator.Spec

namespace Converge.Schema

/-- The schema of a stage. -/
def stage : Schema :=
  block [
    ("args", list string { description := some "Appended after `--model/--mode/--port`." }),
    ("enabled", switch),
    ("image", string),
    ("port", number),
    ("replicas", number),
    ("resources", resources)]

/-- The schema of the picker block, and of a gateway. -/
def scaled : Schema :=
  block [
    ("enabled", switch),
    ("image", string),
    ("port", number),
    ("replicas", number),
    ("resources", resources)]

/-- The schema of the gateways block. -/
def gateways : Schema :=
  block [
    ("enabled", switch),
    ("istio", scaled),
    ("standard", scaled)]

/-- The schema of the service. -/
def serving : Schema :=
  record [
    ("name", string),
    ("port", number),
    ("type", describedString "ClusterIP, NodePort or LoadBalancer")] []
    { default := some (Simulator.Serving.toJson {}) }

/-- The schema of the spec. -/
def simulator : Schema :=
  record [
    ("decode", stage),
    ("epp", scaled),
    ("image", string),
    ("inferenceGateway", gateways),
    ("loadBalancing", balancing),
    ("prefill", stage),
    ("replicas", number (some
      "Replicas of the single decode deployment used when no stage is enabled.")),
    ("resources", resources),
    ("service", serving)] []
    { description := some ("A set of model-serving simulators, optionally split into prefill and "
        ++ "decode stages, with an endpoint picker and inference gateways.") }

end Converge.Schema
