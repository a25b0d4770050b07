/-
  Converge.Simulator.Spec — what a SimulatorDeployment asks for.

  Model-serving simulators, in one deployment or split into a prefill and a
  decode stage, with an endpoint picker and inference gateways.
-/
import Converge.Spec.Balancing
import Converge.Spec.Resources

namespace Converge.Simulator

/-! ## §1. Blocks -/

/-- The service in front of the single deployment. -/
structure Serving where
  name : String := ""
  port : Int32 := 0
  type : String := ""
deriving DecidableEq, Repr, Inhabited

/-- The endpoint picker. -/
structure Picker where
  enabled : Bool := false
  replicas : Int32 := 0
  image : String := ""
  port : Int32 := 0
  resources : Option Resources := none
deriving DecidableEq, Repr, Inhabited

/-- One serving stage. -/
structure Stage where
  enabled : Bool := false
  replicas : Int32 := 0
  image : String := ""
  port : Int32 := 0
  resources : Option Resources := none
  args : List String := []
deriving DecidableEq, Repr, Inhabited

/-- One inference gateway. -/
structure GatewayInstance where
  enabled : Bool := false
  replicas : Int32 := 0
  image : String := ""
  port : Int32 := 0
  resources : Option Resources := none
deriving DecidableEq, Repr, Inhabited

/-- The two inference gateways under one switch. -/
structure Gateways where
  enabled : Bool := false
  standard : Option GatewayInstance := none
  istio : Option GatewayInstance := none
deriving DecidableEq, Repr, Inhabited

/-- The whole spec. -/
structure Spec where
  replicas : Int32 := 0
  image : String := ""
  resources : Option Resources := none
  service : Serving := {}
  balancing : Option Balancing := none
  picker : Option Picker := none
  prefill : Option Stage := none
  decode : Option Stage := none
  gateways : Option Gateways := none
deriving DecidableEq, Repr, Inhabited

/-! ## §2. Wire forms -/

namespace Serving

/-- The wire form of a service block. -/
def toJson (s : Serving) : Json :=
  .obj (Json.textMember "name" s.name
    ++ [("port", .ofInt32 s.port)]
    ++ Json.textMember "type" s.type)

/-- The service block of a wire form. -/
def ofJson? (v : Json) : Option Serving := do
  let ms ← v.record? ["name", "port", "type"]
  let name ← Json.textField ms "name"
  let port ← Json.numberField ms "port"
  let type ← Json.textField ms "type"
  pure { name, port, type }

end Serving

namespace Picker

/-- The wire form of a picker block. -/
def toJson (p : Picker) : Json :=
  .obj ([("enabled", .bool p.enabled)]
    ++ Json.textMember "image" p.image
    ++ [("port", .ofInt32 p.port), ("replicas", .ofInt32 p.replicas)]
    ++ Json.memberOf "resources" Resources.toJson p.resources)

/-- The picker block of a wire form. -/
def ofJson? (v : Json) : Option Picker := do
  let ms ← v.record? ["enabled", "replicas", "image", "port", "resources"]
  let enabled ← Json.boolField ms "enabled"
  let image ← Json.textField ms "image"
  let port ← Json.numberField ms "port"
  let replicas ← Json.numberField ms "replicas"
  let resources ← Json.optional ms "resources" Resources.ofJson?
  pure { enabled, replicas, image, port, resources }

end Picker

namespace Stage

/-- The wire form of a stage. -/
def toJson (s : Stage) : Json :=
  .obj (Json.listMember "args" .str s.args
    ++ [("enabled", .bool s.enabled)]
    ++ Json.textMember "image" s.image
    ++ [("port", .ofInt32 s.port), ("replicas", .ofInt32 s.replicas)]
    ++ Json.memberOf "resources" Resources.toJson s.resources)

/-- The stage of a wire form. -/
def ofJson? (v : Json) : Option Stage := do
  let ms ← v.record? ["enabled", "replicas", "image", "port", "resources", "args"]
  let args ← Json.field ms "args" (some []) (Json.listOf? Json.text?)
  let enabled ← Json.boolField ms "enabled"
  let image ← Json.textField ms "image"
  let port ← Json.numberField ms "port"
  let replicas ← Json.numberField ms "replicas"
  let resources ← Json.optional ms "resources" Resources.ofJson?
  pure { enabled, replicas, image, port, resources, args }

end Stage

namespace GatewayInstance

/-- The wire form of a gateway. -/
def toJson (g : GatewayInstance) : Json :=
  .obj ([("enabled", .bool g.enabled)]
    ++ Json.textMember "image" g.image
    ++ [("port", .ofInt32 g.port), ("replicas", .ofInt32 g.replicas)]
    ++ Json.memberOf "resources" Resources.toJson g.resources)

/-- The gateway of a wire form. -/
def ofJson? (v : Json) : Option GatewayInstance := do
  let ms ← v.record? ["enabled", "replicas", "image", "port", "resources"]
  let enabled ← Json.boolField ms "enabled"
  let image ← Json.textField ms "image"
  let port ← Json.numberField ms "port"
  let replicas ← Json.numberField ms "replicas"
  let resources ← Json.optional ms "resources" Resources.ofJson?
  pure { enabled, replicas, image, port, resources }

end GatewayInstance

namespace Gateways

/-- The wire form of a gateways block. -/
def toJson (g : Gateways) : Json :=
  .obj ([("enabled", .bool g.enabled)]
    ++ Json.memberOf "istio" GatewayInstance.toJson g.istio
    ++ Json.memberOf "standard" GatewayInstance.toJson g.standard)

/-- The gateways block of a wire form. -/
def ofJson? (v : Json) : Option Gateways := do
  let ms ← v.record? ["enabled", "standard", "istio"]
  let enabled ← Json.boolField ms "enabled"
  let istio ← Json.optional ms "istio" GatewayInstance.ofJson?
  let standard ← Json.optional ms "standard" GatewayInstance.ofJson?
  pure { enabled, standard, istio }

end Gateways

namespace Spec

/-- The wire form of a spec. -/
def toJson (s : Spec) : Json :=
  .obj (Json.memberOf "decode" Stage.toJson s.decode
    ++ Json.memberOf "epp" Picker.toJson s.picker
    ++ Json.textMember "image" s.image
    ++ Json.memberOf "inferenceGateway" Gateways.toJson s.gateways
    ++ Json.memberOf "loadBalancing" Balancing.toJson s.balancing
    ++ Json.memberOf "prefill" Stage.toJson s.prefill
    ++ [("replicas", .ofInt32 s.replicas)]
    ++ Json.memberOf "resources" Resources.toJson s.resources
    ++ [("service", s.service.toJson)])

/-- The spec of a wire form. -/
def ofJson? (v : Json) : Option Spec := do
  let ms ← v.record? ["replicas", "image", "resources", "service", "loadBalancing", "epp",
    "prefill", "decode", "inferenceGateway"]
  let decode ← Json.optional ms "decode" Stage.ofJson?
  let picker ← Json.optional ms "epp" Picker.ofJson?
  let image ← Json.textField ms "image"
  let gateways ← Json.optional ms "inferenceGateway" Gateways.ofJson?
  let balancing ← Json.optional ms "loadBalancing" Balancing.ofJson?
  let prefill ← Json.optional ms "prefill" Stage.ofJson?
  let replicas ← Json.numberField ms "replicas"
  let resources ← Json.optional ms "resources" Resources.ofJson?
  let service ← Json.field ms "service" (some {}) Serving.ofJson?
  pure { replicas, image, resources, service, balancing, picker, prefill, decode, gateways }

/-- Whether the simulators run in stages. -/
def staged (s : Spec) : Bool :=
  s.prefill.any (·.enabled) || s.decode.any (·.enabled)

end Spec

end Converge.Simulator
