/-
  Converge.Api.Answer — what an API server answers, and what goes wrong.

  An answer with a status of 400 or more is a refusal.  The server tells the
  refusal in the body, and the code in there counts, not the status.  A body that
  tells no refusal makes one out of the status.
-/
import Converge.Api.Request
import Converge.Text.Quoted

namespace Converge

/-! ## §1. Answers -/

/-- An answer: its status and the text of its body. -/
structure ApiAnswer where
  status : Nat
  body : String
deriving DecidableEq, Repr, Inhabited

/-- A refusal. -/
structure Refusal where
  status : String
  message : String
  reason : String
  code : Nat
deriving DecidableEq, Repr, Inhabited

/-- Why a request has no usable answer. -/
inductive ApiFault where
  | unsendable (why : Unsendable)
  /-- No answer came back. -/
  | transport (detail : String)
  | refused (r : Refusal)
deriving DecidableEq, Repr, Inhabited

/-! ## §2. Refusals -/

/-- The phrase that goes with a status. -/
def reasonPhrase : Nat → String
  | 400 => "Bad Request"
  | 401 => "Unauthorized"
  | 402 => "Payment Required"
  | 403 => "Forbidden"
  | 404 => "Not Found"
  | 405 => "Method Not Allowed"
  | 406 => "Not Acceptable"
  | 407 => "Proxy Authentication Required"
  | 408 => "Request Timeout"
  | 409 => "Conflict"
  | 410 => "Gone"
  | 411 => "Length Required"
  | 412 => "Precondition Failed"
  | 413 => "Payload Too Large"
  | 414 => "URI Too Long"
  | 415 => "Unsupported Media Type"
  | 416 => "Range Not Satisfiable"
  | 417 => "Expectation Failed"
  | 418 => "I'm a teapot"
  | 421 => "Misdirected Request"
  | 422 => "Unprocessable Entity"
  | 423 => "Locked"
  | 424 => "Failed Dependency"
  | 425 => "Too Early"
  | 426 => "Upgrade Required"
  | 428 => "Precondition Required"
  | 429 => "Too Many Requests"
  | 431 => "Request Header Fields Too Large"
  | 451 => "Unavailable For Legal Reasons"
  | 500 => "Internal Server Error"
  | 501 => "Not Implemented"
  | 502 => "Bad Gateway"
  | 503 => "Service Unavailable"
  | 504 => "Gateway Timeout"
  | 505 => "HTTP Version Not Supported"
  | 506 => "Variant Also Negotiates"
  | 507 => "Insufficient Storage"
  | 508 => "Loop Detected"
  | 510 => "Not Extended"
  | 511 => "Network Authentication Required"
  | _ => "<unknown status code>"

namespace Refusal

/-- The code of a refusal: a number of 16 bits. -/
def code? : Json → Option Nat
  | .int n => if 0 ≤ n ∧ n ≤ 65535 then some n.toNat else none
  | _ => none

/-- The refusal a body tells. -/
def ofJson? (v : Json) : Option Refusal := do
  let ms ← v.members?
  let status ← Json.required ms "status" Json.text?
  let message ← Json.textField ms "message"
  let reason ← Json.textField ms "reason"
  let code ← Json.required ms "code" code?
  pure { status, message, reason, code }

/-- What the text of a refusal has. -/
def shape : Shape := .record .strict false [
  .needed "status" .anyText, .plain "message" .anyText, .plain "reason" .anyText,
  .needed "code" .word16]

/-- The refusal of an answer. -/
def ofAnswer (a : ApiAnswer) : Refusal :=
  match (Json.readAs? shape a.body).bind ofJson? with
  | some r => r
  | none =>
    { status := toString a.status ++ " " ++ reasonPhrase a.status
      message := Text.quoted a.body
      reason := "Failed to parse error data"
      code := a.status }

/-- The text of a refusal, followed by all of its fields. -/
def display (r : Refusal) : String :=
  r.message ++ ": " ++ r.reason ++ " (ErrorResponse \x7b status: " ++ Text.quoted r.status
    ++ ", message: " ++ Text.quoted r.message ++ ", reason: " ++ Text.quoted r.reason
    ++ ", code: " ++ toString r.code ++ " \x7d)"

end Refusal

namespace ApiAnswer

/-- Whether the answer is a refusal. -/
def isRefusal (a : ApiAnswer) : Bool := decide (400 ≤ a.status ∧ a.status < 600)

/-- The text an answer carries, unless it is a refusal. -/
def text (a : ApiAnswer) : Except ApiFault String :=
  if a.isRefusal then .error (.refused (Refusal.ofAnswer a)) else .ok a.body

end ApiAnswer

/-! ## §3. Faults of store calls -/

namespace ApiFault

/-- The text of a fault. -/
def message : ApiFault → String
  | unsendable why => "Failed to build request: " ++ why.message
  | transport detail => "ServiceError: " ++ detail
  | refused r => "ApiError: " ++ r.display

/-- A fault as a fault of a store call about a key. -/
def toStoreError (key : Key) : ApiFault → StoreError
  | refused r =>
    if r.code = 404 then .notFound key
    else if r.code = 409 then .conflict key
    else .api key (refused r).message
  | fault => .api key fault.message

end ApiFault

end Converge
