/-
  Converge.Status.Readiness — what was observed of workloads, and the verdict.

  A root is ready when every tracked deployment has as many ready replicas as it
  asks for; otherwise the verdict names the first that has not.
-/
import Converge.Key
import Converge.Object.Basic

namespace Converge

/-- The replica counts of one tracked deployment. -/
structure Observation where
  key : Key
  /-- The replicas asked for; none when the deployment does not exist. -/
  desired : Option Int32
  replicas : Int32
  ready : Int32
deriving DecidableEq, Repr, Inhabited

namespace Observation

/-- A replica count: a 64-bit number cut to its low 32 bits. -/
def count? (v : Json) : Option Int32 := v.int64?.map fun n => n.toInt32

/-- What an object, or its absence, shows. -/
def ofObject (key : Key) : Option Object → Observation
  | none => { key, desired := none, replicas := 0, ready := 0 }
  | some o =>
    { key
      desired := some ((count? (o.data.follow ["spec", "replicas"])).getD 1)
      replicas := (count? (o.data.follow ["status", "replicas"])).getD 0
      ready := (count? (o.data.follow ["status", "readyReplicas"])).getD 0 }

/-- Whether all replicas asked for are ready. -/
def isReady (o : Observation) : Bool := o.desired == some o.ready

end Observation

/-- The texts for the two outcomes of a kind of root. -/
structure ReadyText where
  readyReason : String
  readyMessage : String
  notReadyReason : String
deriving DecidableEq, Repr, Inhabited

/-- Whether a root is ready, and why. -/
structure Verdict where
  ready : Bool
  reason : String
  message : String
deriving DecidableEq, Repr, Inhabited

namespace Verdict

/-- What a deployment is waited for. -/
def waitingFor (o : Observation) : String :=
  match o.desired with
  | none => "waiting for " ++ o.key.display ++ " to be created"
  | some d => "waiting for " ++ o.key.display ++ ": " ++ toString o.ready.toInt ++ "/"
      ++ toString d.toInt ++ " replicas ready"

/-- The verdict on a list of observations. -/
def ofObservations (text : ReadyText) (workloads : List Observation) : Verdict :=
  match workloads.find? fun o => !o.isReady with
  | none => ⟨true, text.readyReason, text.readyMessage⟩
  | some o => ⟨false, text.notReadyReason, waitingFor o⟩

end Verdict

end Converge
