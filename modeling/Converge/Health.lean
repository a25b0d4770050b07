/-
  Converge.Health — what the health server answers.
-/
import Converge.Target

namespace Converge.Health

/-- An answer: its status code and body. -/
structure Answer where
  status : Nat
  body : String
deriving DecidableEq, Repr, Inhabited

/-- The paths at which health is told. -/
def paths : List String := ["/health", "/healthz"]

/-- The answer to a request.  The body is left off when only the head is asked
    for; other methods are not allowed and other paths are not known. -/
def answer (method target : String) : Answer :=
  if paths.contains (Target.ofFullText target).path then
    if method = "GET" then ⟨200, "ok"⟩
    else if method = "HEAD" then ⟨200, ""⟩
    else ⟨405, ""⟩
  else ⟨404, ""⟩

end Converge.Health
