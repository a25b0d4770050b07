/-
  Converge.Api.Script — an API server that answers from a script.

  The first rule that fits a request answers it.  A rule may fit a limited
  number of requests only.  What no rule fits is answered as by an empty server
  that takes every write.
-/
import Converge.Api.Answer

namespace Converge

/-- How a rule answers. -/
inductive ScriptedAnswer where
  /-- With a text. -/
  | text (status : Nat) (body : String)
  /-- With the body of the request. -/
  | echo (status : Nat)
  /-- Not at all: the connection fails. -/
  | lost (detail : String)
deriving DecidableEq, Repr, Inhabited

/-- One rule of a script. -/
structure Rule where
  /-- Only requests of this verb fit. -/
  verb : Option String := none
  /-- Only requests with this path in the target fit; the query does not count. -/
  path : Option String := none
  /-- How many more requests may fit. -/
  times : Option Nat := none
  answer : ScriptedAnswer
deriving DecidableEq, Repr, Inhabited

/-- The rules, the first one foremost. -/
abbrev Script := List Rule

namespace Script

/-- Whether a rule fits a request. -/
def fits (rule : Rule) (r : ApiRequest) : Bool :=
  rule.times != some 0 && rule.verb.all (· == r.verb.name) && rule.path.all (· == r.target.path)

/-- The body of a request as a text; for a request without one it is `null`. -/
def bodyText (r : ApiRequest) : String := Json.write (r.body.getD .null)

/-- A scripted answer to a request, or the text of a failed connection. -/
def answerWith (r : ApiRequest) : ScriptedAnswer → Except String ApiAnswer
  | .text status body => .ok ⟨status, body⟩
  | .echo status => .ok ⟨status, bodyText r⟩
  | .lost detail => .error detail

/-- The report that nothing was found. -/
def notFoundReport : String := Json.write (.obj [("apiVersion", .str "v1"), ("code", .int 404),
  ("kind", .str "Status"), ("message", .str "not found"), ("metadata", .obj []),
  ("reason", .str "NotFound"), ("status", .str "Failure")])

/-- The report that all went well. -/
def successReport : String := Json.write (.obj [("apiVersion", .str "v1"), ("kind", .str "Status"),
  ("metadata", .obj []), ("status", .str "Success")])

/-- The answer to a request that no rule fits. -/
def fallback (r : ApiRequest) : ScriptedAnswer :=
  match r.verb with
  | .get => .text 404 notFoundReport
  | .post => .echo 201
  | .put => .echo 200
  | .patch => .echo 200
  | .delete => .text 200 successReport

/-- The answer to a request, and the script with one use of the rule spent. -/
def answer (r : ApiRequest) : Script → Except String ApiAnswer × Script
  | [] => (answerWith r (fallback r), [])
  | rule :: rest =>
    if fits rule r then
      (answerWith r rule.answer, { rule with times := rule.times.map (· - 1) } :: rest)
    else
      let (given, rest) := answer r rest
      (given, rule :: rest)

end Script

end Converge
