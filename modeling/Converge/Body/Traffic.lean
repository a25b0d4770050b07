/-
  Converge.Body.Traffic — traffic policies of the service mesh.
-/
import Converge.Json.Codec
import Converge.Spec.Balancing

namespace Converge

/-- The policy for requests to a host. -/
structure DestinationRule where
  host : String
  algorithm : String
  pool : Option PoolLimits := none
deriving DecidableEq, Repr, Inhabited

namespace DestinationRule

/-- The wire form of a policy's spec. -/
def toJson (d : DestinationRule) : Json :=
  .obj [("host", .str d.host),
    ("trafficPolicy", .obj (
      Json.memberOf "connectionPool" (fun p => .obj [("http", p.toJson)]) d.pool
        ++ [("loadBalancer", .obj [("simple", .str d.algorithm)])]))]

/-- Both limits of a pool, neither of which may be missing. -/
def limits? (v : Json) : Option PoolLimits := do
  let ms ← v.record? ["http1MaxPendingRequests", "maxRequestsPerConnection"]
  let pendingRequests ← Json.required ms "http1MaxPendingRequests" Json.int32?
  let requestsPerConnection ← Json.required ms "maxRequestsPerConnection" Json.int32?
  pure { pendingRequests, requestsPerConnection }

/-- The value of a wire form. -/
def ofJson? (v : Json) : Option DestinationRule := do
  let ms ← v.record? ["host", "trafficPolicy"]
  let host ← Json.required ms "host" Json.text?
  let policy ← Json.required ms "trafficPolicy" (Json.record? ["loadBalancer", "connectionPool"])
  let algorithm ← Json.required policy "loadBalancer" fun b => do
    let ms ← b.record? ["simple"]
    Json.required ms "simple" Json.text?
  let pool ← Json.optional policy "connectionPool" fun p => do
    let ms ← p.record? ["http"]
    Json.required ms "http" limits?
  pure { host, algorithm, pool }

end DestinationRule

end Converge
