/-
  Converge.Pass.Reconcile — one pass over a root.

  Defaults, checks, capabilities, children, then the status.  A pass over a root
  that is being deleted cleans up instead.  A pass that fails tells a warning,
  unless the controller is shutting down; one that wrote children tells so.
-/
import Converge.Pass.Apply
import Converge.Pass.Finalizer
import Converge.Pass.Status
import Converge.Resource
import Converge.RootSpec
import Converge.Settings
import Converge.Simulator.Summary

namespace Converge

/-- When a root is looked at again after a successful pass. -/
inductive NextLook where
  | after (seconds : UInt64)
  /-- Not before it changes. -/
  | onChange
deriving DecidableEq, Repr, Inhabited

/-- The texts of a SchedulerInstall's ready condition. -/
def Install.readyText : ReadyText :=
  ⟨"Reconciled", "SchedulerInstall resources are ready", "WorkloadsNotReady"⟩

/-- The texts of a SimulatorDeployment's ready condition. -/
def Simulator.readyText : ReadyText :=
  ⟨"DeploymentReady", "Simulator deployment is ready", "DeploymentNotReady"⟩

/-- The namespaces of a list that are named and not the root's own. -/
def Root.foreign (root : Root) (namespaces : List String) : Roster String :=
  Roster.ofList (namespaces.filter fun ns => ns ≠ "" && ns ≠ root.ns)

/-- The namespaces other than the root's own in which a defaulted spec has children. -/
def Install.Spec.linkedNamespaces (root : Root) (s : Install.Spec) : Roster String :=
  root.foreign [s.schedulerNamespace, s.simulatorNamespace]

namespace Pass

/-! ## §1. Parts of a pass -/

/-- Apply children and observe the tracked ones. -/
def applyAndObserve (root : Root) (children : List Child) : Pass (Tally × List Observation) := do
  let tally ← applyAll root.key children {}
  let observations ← observe ((children.filter (·.tracked)).map Child.key)
  pure (tally, observations)

/-- The event of a pass that wrote children. -/
def appliedEvent (t : Tally) : Event where
  severity := .normal
  reason := "Applied"
  note := some (toString t.created ++ " created, " ++ toString t.updated ++ " updated")

/-- The event of a pass that failed. -/
def failedEvent (e : PassError) : Event where
  severity := .warning
  reason := "ReconcileFailed"
  note := some e.message

/-- End a pass: a root that is gone is forgotten, children that were written are told. -/
def finish (settings : Settings) (root : Root) (tally : Tally) : StatusWrite → Pass NextLook
  | .rootGone => do
    let _ ← request (.forget root.key)
    pure .onChange
  | .written | .unchanged => do
    if tally.changed then
      let _ ← request (.announce root (appliedEvent tally))
      pure (.after settings.requeueSecs)
    else pure (.after settings.requeueSecs)

/-- The pass over a root that is being deleted.  Linked children are deleted only
    while cleanup is on; a leftover finalizer is released either way. -/
def release (settings : Settings) (root : Root) (namespaces : Roster String) : Pass NextLook := do
  let caps ← request .capabilities
  let scope := if settings.features.crossNamespaceCleanup then some namespaces else none
  let _ ← releaseRoot root scope caps
  pure .onChange

/-- Tell a warning when a pass fails, unless it was cancelled. -/
def warned {α : Type} (root : Root) (p : Pass α) : Pass α := do
  let ended ← p.attempt
  match ended with
  | .ok a => pure a
  | .error .cancelled => fail .cancelled
  | .error e => do
    let _ ← request (.announce root (failedEvent e))
    fail e

end Pass

/-! ## §2. The two passes -/

/-- Hold the root back before the first child is linked to it, while cleanup is on. -/
def Pass.holdIfLinked (settings : Settings) (root : Root) (linked : Roster String) : Pass Unit :=
  if settings.features.crossNamespaceCleanup && !linked.isEmpty then do
    let _ ← Pass.holdRoot root linked
    pure ()
  else pure ()

/-- The pass over a SchedulerInstall, before faults are told. -/
def Install.steps (settings : Settings) (root : Root) (r : Install.Resource) : Pass NextLook := do
  let spec := r.spec.withDefaults root.name root.ns
  let linked := spec.linkedNamespaces root
  if r.metadata.deletionTimestamp.isSome then Pass.release settings root linked
  else do
    Pass.ofCheck spec.validate
    Pass.holdIfLinked settings root linked
    let caps ← Pass.request .capabilities
    let (tally, observations) ← Pass.applyAndObserve root (spec.children root caps)
    let verdict := Verdict.ofObservations Install.readyText observations
    let now ← Pass.request .clock
    let outcome ←
      Pass.writeStatus Install.statusForm root.key r.metadata.generation verdict now id
    Pass.finish settings root tally outcome

/-- The pass over a SimulatorDeployment, before faults are told. -/
def Simulator.steps (settings : Settings) (root : Root) (r : Simulator.Resource) :
    Pass NextLook := do
  if r.metadata.deletionTimestamp.isSome then Pass.release settings root []
  else do
    let spec := r.spec.withDefaults root.name
    Pass.ofCheck spec.validate
    let caps ← Pass.request .capabilities
    let (tally, observations) ← Pass.applyAndObserve root (spec.children root caps)
    let verdict := Verdict.ofObservations Simulator.readyText observations
    let now ← Pass.request .clock
    let outcome ← Pass.writeStatus Simulator.statusForm root.key r.metadata.generation verdict now
      (spec.summarize root observations)
    Pass.finish settings root tally outcome

/-- The pass over a root of either kind. -/
def RootResource.pass (settings : Settings) (r : RootResource) : Pass NextLook :=
  Pass.warned r.root (match r with
    | install i => Install.steps settings r.root i
    | simulator s => Simulator.steps settings r.root s)

end Converge
