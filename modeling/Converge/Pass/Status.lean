/-
  Converge.Pass.Status — observing workloads and writing the root's status.

  The status is read anew from the stored root, changed, and written back only
  when something other than a transition time changed.
-/
import Converge.Pass.Basic
import Converge.Status.Basic
import Converge.Status.Readiness

namespace Converge

/-- How a kind of status is read, written and given conditions. -/
structure StatusForm (τ : Type) where
  read? : Json → Option τ
  write : τ → Json
  empty : τ
  conditions : τ → List Condition
  withConditions : τ → List Condition → τ

/-- The form of a SchedulerInstall's status. -/
def Install.statusForm : StatusForm Install.Status where
  read? := Install.Status.ofJson?
  write := Install.Status.toJson
  empty := {}
  conditions := Install.Status.conditions
  withConditions s cs := { s with conditions := cs }

/-- The form of a SimulatorDeployment's status. -/
def Simulator.statusForm : StatusForm Simulator.Status where
  read? := Simulator.Status.ofJson?
  write := Simulator.Status.toJson
  empty := {}
  conditions := Simulator.Status.conditions
  withConditions s cs := { s with conditions := cs }

/-- What became of a status write. -/
inductive StatusWrite where
  | written
  | unchanged
  /-- The root is no longer in the store. -/
  | rootGone
deriving DecidableEq, Repr, Inhabited

namespace StatusForm

variable {τ : Type}

/-- The status of stored data; a missing or null one is empty. -/
def stored? (form : StatusForm τ) (data : Json) : Option τ :=
  match data.get? "status" with
  | none | some .null => some form.empty
  | some v => form.read? v

/-- The status with a change folded in and the ready condition of a verdict. -/
def next (form : StatusForm τ) (change : τ → τ) (verdict : Verdict) (generation : Option Int64)
    (now : String) (status : τ) : τ :=
  let changed := change status
  form.withConditions changed (Condition.put (form.conditions changed)
    { type := Condition.readyType
      status := Truth.ofBool verdict.ready
      reason := verdict.reason
      message := verdict.message
      lastTransitionTime := some now
      observedGeneration := generation })

end StatusForm

namespace Pass

/-- Read the state of workloads, in order. -/
def observe : List Key → Pass (List Observation)
  | [] => pure []
  | key :: rest => do
    let stored ← call (.get key)
    let others ← observe rest
    pure (Observation.ofObject key stored :: others)

/-- Fold a change and a verdict into the stored status of a root. -/
def writeStatus {τ : Type} [DecidableEq τ] (form : StatusForm τ) (root : Key)
    (generation : Option Int64) (verdict : Verdict) (now : String) (change : τ → τ) :
    Pass StatusWrite := do
  let stored ← call (.get root)
  match stored with
  | none => pure .rootGone
  | some o => match form.stored? o.data with
    | none => fail .unreadableStatus
    | some status =>
      let next := form.next change verdict generation now status
      -- compared as it was read, so that members nobody knows do not count
      if next = status then pure .unchanged
      else do
        let _ ← call (.updateStatus root { o with data := o.data.setMember "status" (form.write next) })
        pure .written

end Pass

end Converge
