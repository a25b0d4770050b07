/-
  Converge.Spec.Defaults — default values that both kinds of spec share.

  A field that holds its zero value takes its default; any other value stays.
-/
import Converge.Spec.Balancing
import Converge.Spec.Error

namespace Converge

/-- A number, or its default when it is zero. -/
def orNumber (n default : Int32) : Int32 := if n = 0 then default else n

/-- A text, or its default when it is empty. -/
def orText (s default : String) : String := if s = "" then default else s

/-- The image of the endpoint picker. -/
def pickerImage : String := "ghcr.io/llm-d/llm-d-inference-scheduler:v0.4.0"

/-- The port of serving services. -/
def servingPort : Int32 := 8200

/-- The verbosity of the endpoint picker. -/
def pickerVerbosity : Int32 := 1

namespace Balancing

/-- The algorithms a policy may name. -/
def algorithms : List String :=
  ["ROUND_ROBIN", "LEAST_REQUEST", "RANDOM", "LEAST_CONN", "PASSTHROUGH"]

/-- An enabled policy gets a connection pool; limits that are zero become one. -/
def withDefaults (b : Balancing) : Balancing where
  enabled := b.enabled
  algorithm := orText b.algorithm "ROUND_ROBIN"
  pool :=
    let pool := match b.pool with
      | some p => some p
      | none => if b.enabled then some {} else none
    pool.map fun p => ⟨orNumber p.pendingRequests 1, orNumber p.requestsPerConnection 1⟩

/-- The algorithm is known and the limits are above zero. -/
def validate (field : String) (b : Balancing) : Except SpecError Unit := do
  Check.oneOf field b.algorithm algorithms
  Check.each (fun p => do
    Check.positive "connectionPool.http1MaxPendingRequests" p.pendingRequests
    Check.positive "connectionPool.maxRequestsPerConnection" p.requestsPerConnection) b.pool

end Balancing

end Converge
