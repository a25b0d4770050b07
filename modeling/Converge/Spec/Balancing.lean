/-
  Converge.Spec.Balancing — the traffic policy block of a root's spec.
-/
import Converge.Json.Codec

namespace Converge

/-- Limits of the connection pool in front of a service. -/
structure PoolLimits where
  pendingRequests : Int32 := 0
  requestsPerConnection : Int32 := 0
deriving DecidableEq, Repr, Inhabited

/-- How requests are spread over the pods of a service. -/
structure Balancing where
  enabled : Bool := false
  algorithm : String := ""
  pool : Option PoolLimits := none
deriving DecidableEq, Repr, Inhabited

namespace PoolLimits

/-- The wire form. -/
def toJson (p : PoolLimits) : Json :=
  .obj [("http1MaxPendingRequests", .ofInt32 p.pendingRequests),
    ("maxRequestsPerConnection", .ofInt32 p.requestsPerConnection)]

/-- The value of a wire form. -/
def ofJson? (v : Json) : Option PoolLimits := do
  let ms ← v.record? ["http1MaxPendingRequests", "maxRequestsPerConnection"]
  let pendingRequests ← Json.numberField ms "http1MaxPendingRequests"
  let requestsPerConnection ← Json.numberField ms "maxRequestsPerConnection"
  pure { pendingRequests, requestsPerConnection }

end PoolLimits

namespace Balancing

/-- The wire form. -/
def toJson (b : Balancing) : Json :=
  .obj (Json.textMember "algorithm" b.algorithm
    ++ Json.memberOf "connectionPool" PoolLimits.toJson b.pool
    ++ [("enabled", .bool b.enabled)])

/-- The value of a wire form. -/
def ofJson? (v : Json) : Option Balancing := do
  let ms ← v.record? ["enabled", "algorithm", "connectionPool"]
  let algorithm ← Json.textField ms "algorithm"
  let pool ← Json.optional ms "connectionPool" PoolLimits.ofJson?
  let enabled ← Json.boolField ms "enabled"
  pure { enabled, algorithm, pool }

end Balancing

end Converge
