/-
  Converge.Scenario.World — a controller on an object store in memory.

  The world answers every request of a pass: store calls under disturbances,
  capabilities from a fixed list of missing kinds, the ledger, a clock that stands
  still, and a list of the events told.
-/
import Converge.Ledger
import Converge.Pass.Reconcile
import Converge.Scenario.Disturbance

namespace Converge

/-- The state of controller and store. -/
structure World where
  store : Store := {}
  ledger : Ledger := []
  settings : Settings := {}
  /-- The kinds that discovery finds missing; none when nobody asks. -/
  lacking : Option (List Kind) := none
  cancelled : Bool := false
  disturbances : List Disturbance := []
  clock : String := ""
  /-- The latest event comes last. -/
  events : List (Root × Event) := []
deriving Inhabited

namespace World

/-- A store call. -/
def call (w : World) (c : StoreCall) : Except StoreError c.Reply × World :=
  let (reply, disturbances, shaken) :=
    Disturbance.perform w.disturbances c ⟨w.store, w.cancelled⟩
  (reply, { w with disturbances, store := shaken.store, cancelled := shaken.cancelled })

/-- What the gate finds: everything served without discovery, otherwise all but
    the optional kinds that are lacking. -/
def capabilities (w : World) : Capabilities :=
  let gate : Gate := if w.lacking.isSome then .asking else .open
  let ask (k : Kind) (_ : Unit) : Bool × Unit := (!(w.lacking.getD []).contains k, ())
  (gate.resolve ask 0 ([], ())).1

/-- The answer to any request. -/
def handle : Pass.Handler World
  | .call c, w => w.call c
  | .capabilities, w => (w.capabilities, w)
  | .isCancelled, w => (w.cancelled, w)
  | .clock, w => (w.clock, w)
  | .record root child owned, w => ((), { w with ledger := w.ledger.record root child owned })
  | .forget root, w => ((), { w with ledger := w.ledger.forget root })
  | .linkedChildren root, w => (w.ledger.linked root, w)
  | .announce root event, w => ((), { w with events := w.events ++ [(root, event)] })

/-- A fresh controller on the same store. -/
def restarted (w : World) (settings : Settings) (lacking : Option (List Kind)) : World :=
  { w with settings, lacking, ledger := [], cancelled := false }

/-- The same world before a step: logs empty, the step's disturbances in place. -/
def prepared (w : World) (disturbances : List Disturbance) (clock : String) : World :=
  { w with
    store := { w.store with reads := 0, writes := [] }
    events := []
    disturbances, clock }

end World

end Converge
