/-
  Converge.Api.Cluster — a controller on an API server.

  The cluster answers every request of a pass over the wire: store calls,
  questions to discovery, and events.  It logs what goes over the wire.
-/
import Converge.Api.Announcer
import Converge.Api.Reply
import Converge.Api.Script
import Converge.Api.Served
import Converge.Ledger
import Converge.Pass.Reconcile

namespace Converge

/-- The state of controller and server. -/
structure Cluster where
  settings : Settings := {}
  script : Script := []
  /-- What discovery answered, as far as it is remembered. -/
  answers : Answers := []
  ledger : Ledger := []
  /-- The events passes have told. -/
  told : Told := []
  clock : String := ""
  /-- The requests that arrived, the latest last. -/
  requests : List ApiRequest := []
deriving Inhabited

namespace Cluster

/-! ## §1. The wire -/

/-- Send a request.  The server answers, and logs, what arrives of it. -/
def send (c : Cluster) (r : ApiRequest) : Except ApiFault String × Cluster :=
  let (given, script) := Script.answer r.received c.script
  let c := { c with script, requests := c.requests ++ [r.received] }
  match given with
  | .ok a => (a.text, c)
  | .error detail => (.error (.transport detail), c)

/-- Make a store call. -/
def call (c : Cluster) (s : StoreCall) : Except StoreError s.Reply × Cluster :=
  match s.unsendable? c.settings.fieldManager with
  | some why => (s.conclude (.error (.unsendable why)), c)
  | none =>
    let (outcome, c) := c.send (s.toRequest c.settings.fieldManager)
    (s.conclude outcome, c)

/-- Ask whether a kind is served. -/
def askServed (k : Kind) (c : Cluster) : Bool × Cluster :=
  let (outcome, c) := c.send k.discoveryRequest
  (k.servedBy outcome, c)

/-- Tell an event, and what is remembered then. -/
def tell (c : Cluster) (told : Told) (root : Root) (e : Event) : Told × Cluster :=
  let topic := Announcer.topicOf root e
  let telling := Announcer.telling told root e
  let r := Announcer.request c.settings.fieldManager c.clock topic telling
  match r.unsendable? with
  | some _ => (told, c)
  | none =>
    let (outcome, c) := c.send r
    (Announcer.remember told topic telling outcome, c)

/-! ## §2. Passes -/

/-- The gate of the controller: answers of discovery are remembered for a while. -/
def gate (c : Cluster) : Gate :=
  if c.settings.features.discovery then .caching c.settings.discoveryTtlSecs.toNat else .open

/-- Which optional kinds are served.  No time passes between two questions. -/
def capabilities (c : Cluster) : Capabilities × Cluster :=
  let (caps, answers, c) := c.gate.resolve askServed 0 (c.answers, c)
  (caps, { c with answers })

/-- The answer to any request of a pass. -/
def handle : Pass.Handler Cluster
  | .call s, c => c.call s
  | .capabilities, c => c.capabilities
  | .isCancelled, c => (false, c)
  | .clock, c => (c.clock, c)
  | .record root child owned, c => ((), { c with ledger := c.ledger.record root child owned })
  | .forget root, c => ((), { c with ledger := c.ledger.forget root })
  | .linkedChildren root, c => (c.ledger.linked root, c)
  | .announce root event, c =>
    let (told, c) := c.tell c.told root event
    ((), { c with told })

end Cluster

end Converge
