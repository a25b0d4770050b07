/-
  Converge.Schema.Balancing — the schema of the traffic policy block.
-/
import Converge.Schema.Basic

namespace Converge.Schema

/-- The schema of a traffic policy. -/
def balancing : Schema :=
  block [
    ("algorithm", describedString
      "ROUND_ROBIN, LEAST_REQUEST, RANDOM, LEAST_CONN or PASSTHROUGH"),
    ("connectionPool", block [
      ("http1MaxPendingRequests", number),
      ("maxRequestsPerConnection", number)]),
    ("enabled", switch)]
    (some "Traffic policy rendered into an Istio DestinationRule.")

end Converge.Schema
