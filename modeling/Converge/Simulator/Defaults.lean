/-
  Converge.Simulator.Defaults — the defaults of a SimulatorDeployment's spec, and
  the check of a spec with its defaults.
-/
import Converge.Naming
import Converge.Simulator.Spec
import Converge.Spec.Defaults

namespace Converge.Simulator

/-! ## §1. Defaults -/

/-- The image of the simulators. -/
def simulatorImage : String := "docker.io/library/llm-d-simulator:local"

/-- The image of the standard gateway. -/
def standardImage : String := "cr.kgateway.dev/kgateway-dev/envoy-wrapper:v2.1.1"

/-- The image of the Istio gateway. -/
def istioImage : String := "docker.io/istio/proxyv2:1.28.1"

/-- The types of service a spec may name. -/
def serviceTypes : List String := ["ClusterIP", "NodePort", "LoadBalancer"]

/-- The service is named after the root and stays inside the cluster. -/
def Serving.withDefaults (root : String) (s : Serving) : Serving where
  name := orText s.name (Naming.simProxy root)
  port := orNumber s.port servingPort
  type := orText s.type "ClusterIP"

/-- The picker is a single pod. -/
def Picker.withDefaults (p : Picker) : Picker :=
  { p with
    replicas := orNumber p.replicas 1
    image := orText p.image pickerImage
    port := orNumber p.port 8100 }

/-- A stage takes the image of the spec. -/
def Stage.withDefaults (image : String) (s : Stage) : Stage :=
  { s with
    replicas := orNumber s.replicas 2
    image := orText s.image image
    port := orNumber s.port servingPort }

/-- A gateway of one make, with the image of that make. -/
def GatewayInstance.withDefaults (image : String) (g : GatewayInstance) : GatewayInstance :=
  { g with
    replicas := orNumber g.replicas 1
    image := orText g.image image
    port := orNumber g.port 8080 }

/-- Each make of gateway with its own image. -/
def Gateways.withDefaults (g : Gateways) : Gateways :=
  { g with
    standard := g.standard.map (GatewayInstance.withDefaults standardImage)
    istio := g.istio.map (GatewayInstance.withDefaults istioImage) }

/-- A spec with its defaults, for a root of the given name. -/
def Spec.withDefaults (root : String) (s : Spec) : Spec :=
  let image := orText s.image simulatorImage
  { replicas := orNumber s.replicas 2
    image
    resources := s.resources
    service := s.service.withDefaults root
    balancing := s.balancing.map Balancing.withDefaults
    picker := s.picker.map Picker.withDefaults
    prefill := s.prefill.map (Stage.withDefaults image)
    decode := s.decode.map (Stage.withDefaults image)
    gateways := s.gateways.map Gateways.withDefaults }

/-! ## §2. Checks -/

/-- Replicas are above zero and the port is a port. -/
def checkScale (block : String) (replicas port : Int32) : Except SpecError Unit := do
  Check.positive (block ++ ".replicas") replicas
  Check.port (block ++ ".port") port

/-- The first fault of a spec, in the order of its blocks.  Disabled blocks are
    checked like enabled ones. -/
def Spec.validate (s : Spec) : Except SpecError Unit := do
  Check.positive "spec.replicas" s.replicas
  Check.port "spec.service.port" s.service.port
  Check.oneOf "spec.service.type" s.service.type serviceTypes
  Check.each (fun p => checkScale "spec.epp" p.replicas p.port) s.picker
  Check.each (fun t => checkScale "spec.prefill" t.replicas t.port) s.prefill
  Check.each (fun t => checkScale "spec.decode" t.replicas t.port) s.decode
  Check.each (fun g => do
    Check.each (fun i => checkScale "spec.inferenceGateway" i.replicas i.port) g.standard
    Check.each (fun i => checkScale "spec.inferenceGateway" i.replicas i.port) g.istio) s.gateways
  Check.each (Balancing.validate "spec.loadBalancing.algorithm") s.balancing

end Converge.Simulator
