/-
  Converge.Status.Basic — the status of the two kinds of root.
-/
import Converge.Status.Condition

namespace Converge

/-- The status of a SchedulerInstall. -/
structure Install.Status where
  conditions : List Condition := []
deriving DecidableEq, Repr, Inhabited

/-- The status of a SimulatorDeployment. -/
structure Simulator.Status where
  replicas : Int32 := 0
  readyReplicas : Int32 := 0
  endpoints : List String := []
  gatewayUrl : String := ""
  conditions : List Condition := []
deriving DecidableEq, Repr, Inhabited

namespace Install.Status

/-- The wire form. -/
def toJson (s : Install.Status) : Json :=
  .obj (Json.listMember "conditions" Condition.toJson s.conditions)

/-- The value of a wire form. -/
def ofJson? (v : Json) : Option Install.Status := do
  let ms ← v.record? ["conditions"]
  let conditions ← Json.field ms "conditions" (some []) (Json.listOf? Condition.ofJson?)
  pure { conditions }

end Install.Status

namespace Simulator.Status

/-- The wire form. -/
def toJson (s : Simulator.Status) : Json :=
  .obj (Json.listMember "conditions" Condition.toJson s.conditions
    ++ Json.listMember "endpoints" .str s.endpoints
    ++ Json.textMember "gatewayURL" s.gatewayUrl
    ++ [("readyReplicas", .ofInt32 s.readyReplicas), ("replicas", .ofInt32 s.replicas)])

/-- The value of a wire form. -/
def ofJson? (v : Json) : Option Simulator.Status := do
  let ms ← v.record? ["replicas", "readyReplicas", "endpoints", "gatewayURL", "conditions"]
  let conditions ← Json.field ms "conditions" (some []) (Json.listOf? Condition.ofJson?)
  let endpoints ← Json.field ms "endpoints" (some []) (Json.listOf? Json.text?)
  let gatewayUrl ← Json.textField ms "gatewayURL"
  let readyReplicas ← Json.numberField ms "readyReplicas"
  let replicas ← Json.numberField ms "replicas"
  pure { replicas, readyReplicas, endpoints, gatewayUrl, conditions }

end Simulator.Status

end Converge
