/-
  Converge.Schema.Status — the schemas of conditions and of the two kinds of status.
-/
import Converge.Schema.Basic
import Converge.Status.Condition

namespace Converge.Schema

/-- The schema of a condition. -/
def condition : Schema :=
  record [
    ("lastTransitionTime", nullableString),
    ("message", string),
    ("observedGeneration", integer "int64" { nullable := true }),
    ("reason", string),
    ("status", choice ([Truth.yes, .no, .unknown].map Truth.name) {}),
    ("type", describedString
      "Free-form so conditions written by other actors survive a round trip.")]
    ["status", "type"] {}

/-- The schema of a SchedulerInstall's status. -/
def installStatus : Schema := block [("conditions", list condition {})]

/-- The schema of a SimulatorDeployment's status. -/
def simulatorStatus : Schema :=
  block [
    ("conditions", list condition {}),
    ("endpoints", list string {}),
    ("gatewayURL", string),
    ("readyReplicas", number),
    ("replicas", number)]

end Converge.Schema
