/-
  Converge.Api.Reply — the reply to a store call, read off an answer.

  A missing object is no fault of a fetch, which goes by the reason of the
  refusal, nor of a deletion, which goes by its code.
-/
import Converge.Api.Answer

namespace Converge

/-! ## §1. Shapes -/

/-- What the text of a list has. -/
def listShape : Shape := .record .strict true [
  .plain "metadata" (.record .lenient false [
    .optional "continue" .anyText, .optional "remainingItemCount" .int64,
    .optional "resourceVersion" .anyText, .optional "selfLink" .anyText]),
  { name := "items", shape := .list Object.shape, nullable := true, isNeeded := true }]

/-- The objects of a list. -/
def listed? (v : Json) : Option (List Object) := do
  let ms ← v.members?
  let items ← Json.required ms "items" (Json.nullable (Json.listOf? Object.ofJson?))
  pure (items.getD [])

/-- What the server's report on a request has. -/
def reportShape : Shape := .record .strict false [
  .optional "status" (.choice ["Success", "Failure"]), .plain "code" .word16,
  .plain "message" .anyText, .plain "reason" .anyText,
  .optional "details" (.record .strict false [
    .plain "name" .anyText, .plain "group" .anyText, .plain "kind" .anyText,
    .plain "uid" .anyText,
    .plain "causes" (.list (.record .strict false [
      .plain "reason" .anyText, .plain "message" .anyText, .plain "field" .anyText])),
    .plain "retryAfterSeconds" .word32])]

/-- Whether a text answers a deletion: a report, or the object deleted. -/
def answersDeletion (text : String) : Bool :=
  match Json.read? text with
  | none => false
  | some v =>
    if v.get? "kind" = some (.str "Status") then (Json.readAs? reportShape text).isSome
    else (Object.read? text).isSome

/-! ## §2. Replies -/

namespace StoreCall

/-- The reply in the text of an answer. -/
def reply? : (c : StoreCall) → String → Option c.Reply
  | get _, text => (Object.read? text).map some
  | create _ _, text => Object.read? text
  | update _ _, text => Object.read? text
  | updateStatus _ _, text => Object.read? text
  | list _ _ _, text => (Json.readAs? listShape text).bind listed?
  | delete _, text => if answersDeletion text then some () else none

/-- The reply to a call that was refused, when the refusal is no fault. -/
def excuse? : (c : StoreCall) → Refusal → Option c.Reply
  | get _, r => if r.reason = "NotFound" then some none else none
  | delete _, r => if r.code = 404 then some () else none
  | create _ _, _ => none
  | update _ _, _ => none
  | updateStatus _ _, _ => none
  | list _ _ _, _ => none

/-- The outcome of a call, from the text of the answer or the fault. -/
def conclude (c : StoreCall) : Except ApiFault String → Except StoreError c.Reply
  | .ok text => match c.reply? text with
    | some reply => .ok reply
    | none => .error .serialization
  | .error (.refused r) => match c.excuse? r with
    | some reply => .ok reply
    | none => .error ((ApiFault.refused r).toStoreError c.key)
  | .error fault => .error (fault.toStoreError c.key)

end StoreCall

end Converge
