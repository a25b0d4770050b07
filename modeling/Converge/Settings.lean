/-
  Converge.Settings — the controller's settings from environment variables.

  Every variable has a default.  Texts are taken as they are: nothing is trimmed,
  numbers are decimal digits after an optional plus sign, and truth values are
  exactly `true` and `false`.
-/
import Converge.Table
import Converge.Text.Blank

namespace Converge

/-! ## §1. Values -/

/-- Which parts of the controller are on. -/
structure Features where
  schedulerInstall : Bool := true
  simulatorDeployment : Bool := true
  /-- Delete linked children in other namespaces when their root goes. -/
  crossNamespaceCleanup : Bool := false
  /-- Ask the cluster which optional kinds it serves. -/
  discovery : Bool := true
deriving DecidableEq, Repr, Inhabited

/-- The settings; durations are in seconds. -/
structure Settings where
  httpPort : UInt16 := 8088
  watchNamespace : Option String := none
  fieldManager : String := "sim-operator"
  requeueSecs : UInt64 := 300
  errorRequeueSecs : UInt64 := 30
  discoveryTtlSecs : UInt64 := 60
  features : Features := {}
deriving DecidableEq, Repr, Inhabited

/-- The fault of a setting: the text of a variable is no value of its type. -/
inductive SettingsError where
  | malformed (variableName : String)
deriving DecidableEq, Repr, Inhabited

namespace SettingsError

/-- The text of a fault. -/
def message : SettingsError → String
  | malformed name => "Failed to parse environment variable " ++ name

end SettingsError

namespace Settings

/-! ## §2. Reading -/

/-- The number written by a text, if it is at most `limit`. -/
def natural? (limit : Nat) (s : String) : Option Nat :=
  let digits := match s.toList with
    | '+' :: rest => rest
    | cs => cs
  if digits.isEmpty || !digits.all Char.isDigit then none
  else
    let n := digits.foldl (fun n c => 10 * n + (c.toNat - '0'.toNat)) 0
    if n ≤ limit then some n else none

/-- The truth value written by a text. -/
def truth? (s : String) : Option Bool :=
  if s = "true" then some true
  else if s = "false" then some false
  else none

/-- The value of a variable, or its default when the variable is not set. -/
def setting {α : Type} (env : Table String String) (name : String) (unset : α)
    (read : String → Option α) : Except SettingsError α :=
  match Table.get? env name with
  | none => .ok unset
  | some s => match read s with
    | some v => .ok v
    | none => .error (.malformed name)

/-- The settings of an environment.  Of several malformed variables the first in
    this order is reported. -/
def ofEnv (env : Table String String) : Except SettingsError Settings := do
  let httpPort ← setting env "SIM_OPERATOR_HTTP_PORT" 8088 fun s =>
    (natural? 65535 s).map UInt16.ofNat
  let watchNamespace ← setting env "SIM_OPERATOR_WATCH_NAMESPACE" none fun s => some (some s)
  let fieldManager ← setting env "SIM_OPERATOR_FIELD_MANAGER" "sim-operator" some
  let seconds (s : String) : Option UInt64 := (natural? 18446744073709551615 s).map UInt64.ofNat
  let requeueSecs ← setting env "SIM_OPERATOR_REQUEUE_SECS" 300 seconds
  let errorRequeueSecs ← setting env "SIM_OPERATOR_ERROR_REQUEUE_SECS" 30 seconds
  let discoveryTtlSecs ← setting env "SIM_OPERATOR_DISCOVERY_TTL_SECS" 60 seconds
  let schedulerInstall ← setting env "SIM_OPERATOR_FEATURES_SCHEDULER_INSTALL" true truth?
  let simulatorDeployment ← setting env "SIM_OPERATOR_FEATURES_SIMULATOR_DEPLOYMENT" true truth?
  let crossNamespaceCleanup ←
    setting env "SIM_OPERATOR_FEATURES_CROSS_NAMESPACE_CLEANUP" false truth?
  let discovery ← setting env "SIM_OPERATOR_FEATURES_DISCOVERY" true truth?
  pure {
    httpPort, watchNamespace, fieldManager, requeueSecs, errorRequeueSecs, discoveryTtlSecs
    features := { schedulerInstall, simulatorDeployment, crossNamespaceCleanup, discovery } }

/-! ## §3. Derived settings -/

/-- The delay before a failed root is looked at again, at least a second. -/
def errorRequeueAfter (s : Settings) : UInt64 := max s.errorRequeueSecs 1

/-- The namespace to watch; a blank one means all of them. -/
def watched? (s : Settings) : Option String :=
  (s.watchNamespace.map Text.trim).filter fun ns => ns ≠ ""

/-- The address at which health is answered: the port on every interface. -/
def httpAddress (s : Settings) : String := "0.0.0.0:" ++ toString s.httpPort.toNat

end Settings

end Converge
