/-
  Converge.Api.Session — calls to a cluster and what they answer.

  A session drives one controller on one API server.  Before any call the rules
  of the server may be exchanged.  Events told by hand are remembered apart from
  those that passes tell.
-/
import Converge.Api.Cluster
import Converge.Object.Edit

namespace Converge

/-- One call. -/
inductive ClusterCall where
  | store (c : StoreCall)
  /-- Ask discovery itself. -/
  | served (kind : Kind)
  /-- Ask the gate for every optional kind. -/
  | resolve
  | announce (root : Root) (event : Event)
  | reconcile (kind : RootKind) (object : Json)
deriving Inhabited

/-- What a call answers. -/
inductive ClusterAnswer where
  | nothing
  /-- A part of the call could not be read. -/
  | unreadable
  | fault (e : PassError)
  | object (o : Object)
  | objects (os : List Object)
  | flag (b : Bool)
  | kinds (ks : List Kind)
  | next (n : NextLook)
deriving Inhabited

/-- A call that was read, or one that could not be, and the rules that hold from it on. -/
structure PlannedCall where
  script : Option Script := none
  call : Option ClusterCall
deriving Inhabited

/-- What is seen of one call: its answer and the requests it sent. -/
structure ClusterReport where
  answer : ClusterAnswer
  requests : List ApiRequest
deriving Inhabited

namespace ClusterCall

/-- The answer to a store call. -/
def storeAnswer : (c : StoreCall) → c.Reply → ClusterAnswer
  | .get _, some o => .object o
  | .get _, none => .nothing
  | .create _ _, o => .object o
  | .update _ _, o => .object o
  | .updateStatus _ _, o => .object o
  | .list _ _ _, os => .objects os
  | .delete _, _ => .nothing

/-- Make one call; `told` is what was told by hand. -/
def run (call : ClusterCall) (told : Told) (c : Cluster) : ClusterAnswer × Told × Cluster :=
  match call with
  | store s => match c.call s with
    | (.ok reply, c) => (storeAnswer s reply, told, c)
    | (.error e, c) => (.fault (.store e), told, c)
  | served kind =>
    let (is, c) := Cluster.askServed kind c
    (.flag is, told, c)
  | resolve =>
    let (caps, c) := c.capabilities
    (.kinds caps.missing, told, c)
  | announce root event =>
    let (told, c) := c.tell told root event
    (.nothing, told, c)
  | reconcile kind form => match RootResource.read? kind form with
    | none => (.unreadable, told, c)
    | some r => match (r.pass c.settings).run Cluster.handle c with
      | (.ok n, c) => (.next n, told, c)
      | (.error e, c) => (.fault e, told, c)

end ClusterCall

namespace Cluster

/-- The cluster before a call: its log empty, new rules in place. -/
def prepared (c : Cluster) (script : Option Script) : Cluster :=
  { c with script := script.getD c.script, requests := [] }

/-- Make calls in turn. -/
def runCalls : List PlannedCall → Told → Cluster → List ClusterReport
  | [], _, _ => []
  | planned :: rest, told, c =>
    let c := c.prepared planned.script
    let (answer, told, c) := match planned.call with
      | some call => call.run told c
      | none => (.unreadable, told, c)
    { answer, requests := c.requests } :: runCalls rest told c

end Cluster

end Converge
