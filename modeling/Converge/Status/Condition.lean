/-
  Converge.Status.Condition — the conditions in a root's status.

  A list of conditions holds at most one of each type.  Putting a condition
  replaces the first one of its type; its transition time moves only when the
  truth value flips.
-/
import Converge.Json.Codec

namespace Converge

/-- The truth value of a condition. -/
inductive Truth where
  | yes
  | no
  | unknown
deriving DecidableEq, Repr, Inhabited

/-- One condition.  Types are free text, so that conditions of other writers survive. -/
structure Condition where
  type : String
  status : Truth
  reason : String := ""
  message : String := ""
  lastTransitionTime : Option String := none
  observedGeneration : Option Int64 := none
deriving DecidableEq, Repr, Inhabited

namespace Truth

/-- The name of a truth value. -/
def name : Truth → String
  | yes => "True"
  | no => "False"
  | unknown => "Unknown"

/-- The truth value of a name. -/
def ofName? (s : String) : Option Truth :=
  if s = "True" then some yes
  else if s = "False" then some no
  else if s = "Unknown" then some unknown
  else none

/-- The truth value of a decision. -/
def ofBool (b : Bool) : Truth := if b then yes else no

/-- The wire form. -/
def toJson (t : Truth) : Json := .str t.name

/-- The value of a wire form: a name, or an object that has nothing but that name,
    with `null` under it. -/
def ofJson? : Json → Option Truth
  | .str s => ofName? s
  | .obj [(s, .null)] => ofName? s
  | _ => none

end Truth

namespace Condition

/-- The type of the condition the controller keeps. -/
def readyType : String := "Ready"

/-- The wire form. -/
def toJson (c : Condition) : Json :=
  .obj (Json.memberOf "lastTransitionTime" .str c.lastTransitionTime
    ++ Json.textMember "message" c.message
    ++ Json.memberOf "observedGeneration" (fun n => .int n.toInt) c.observedGeneration
    ++ Json.textMember "reason" c.reason
    ++ [("status", c.status.toJson), ("type", .str c.type)])

/-- The value of a wire form. -/
def ofJson? (v : Json) : Option Condition := do
  let ms ← v.fullRecord? ["type", "status", "reason", "message", "lastTransitionTime",
    "observedGeneration"]
  let lastTransitionTime ← Json.optional ms "lastTransitionTime" Json.text?
  let message ← Json.textField ms "message"
  let observedGeneration ← Json.optional ms "observedGeneration" Json.int64?
  let reason ← Json.textField ms "reason"
  let status ← Json.required ms "status" Truth.ofJson?
  let type ← Json.required ms "type" Json.text?
  pure { type, status, reason, message, lastTransitionTime, observedGeneration }

/-- Put `next` into a list: it takes the place of the first condition of its
    type, and that one's transition time when the truth values agree, or comes last. -/
def put : List Condition → Condition → List Condition
  | [], next => [next]
  | c :: rest, next =>
    if c.type = next.type then
      (if c.status = next.status then { next with lastTransitionTime := c.lastTransitionTime }
       else next) :: rest
    else c :: put rest next

/-- The first condition of a type. -/
def find? (conditions : List Condition) (type : String) : Option Condition :=
  conditions.find? fun c => c.type = type

end Condition

end Converge
