/-
  Converge.Resource — root objects with typed spec and status.
-/
import Converge.Install.Spec
import Converge.Root
import Converge.Simulator.Spec
import Converge.Status.Basic

namespace Converge

/-- A root object: metadata, spec and, once it was written, status. -/
structure Resource (σ τ : Type) where
  metadata : Metadata
  spec : σ
  status : Option τ := none
deriving DecidableEq, Inhabited

namespace Resource

variable {σ τ : Type}

/-- The resource of a wire form.  Its type information is not looked at. -/
def ofJson? (spec? : Json → Option σ) (status? : Json → Option τ) (v : Json) :
    Option (Resource σ τ) := do
  let ms ← v.fullRecord? ["metadata", "spec", "status"]
  let metadata ← Json.required ms "metadata" Metadata.ofJson?
  let spec ← Json.required ms "spec" spec?
  let status ← Json.optional ms "status" status?
  pure { metadata, spec, status }

/-- The wire form of a resource of a kind. -/
def toJson (kind : RootKind) (writeSpec : σ → Json) (writeStatus : τ → Json)
    (r : Resource σ τ) : Json :=
  .obj ([("apiVersion", .str kind.kind.apiVersion), ("kind", .str kind.kind.name),
      ("metadata", r.metadata.toJson), ("spec", writeSpec r.spec)]
    ++ Json.memberOf "status" writeStatus r.status)

end Resource

/-! ## The two kinds -/

/-- A SchedulerInstall. -/
abbrev Install.Resource := Converge.Resource Install.Spec Install.Status

/-- A SimulatorDeployment. -/
abbrev Simulator.Resource := Converge.Resource Simulator.Spec Simulator.Status

/-- The SchedulerInstall of a wire form. -/
def Install.read? (v : Json) : Option Install.Resource :=
  Resource.ofJson? Install.Spec.ofJson? Install.Status.ofJson? v

/-- The wire form of a SchedulerInstall. -/
def Install.write (r : Install.Resource) : Json :=
  Resource.toJson .schedulerInstall Install.Spec.toJson Install.Status.toJson r

/-- The SimulatorDeployment of a wire form. -/
def Simulator.read? (v : Json) : Option Simulator.Resource :=
  Resource.ofJson? Simulator.Spec.ofJson? Simulator.Status.ofJson? v

/-- The wire form of a SimulatorDeployment. -/
def Simulator.write (r : Simulator.Resource) : Json :=
  Resource.toJson .simulatorDeployment Simulator.Spec.toJson Simulator.Status.toJson r

/-- A root object of either kind. -/
inductive RootResource where
  | install (r : Install.Resource)
  | simulator (r : Simulator.Resource)
deriving DecidableEq, Inhabited

namespace RootResource

/-- The root object of a wire form, read as a kind. -/
def read? (kind : RootKind) (v : Json) : Option RootResource :=
  match kind with
  | .schedulerInstall => (Install.read? v).map install
  | .simulatorDeployment => (Simulator.read? v).map simulator

/-- The wire form. -/
def write : RootResource → Json
  | install r => Install.write r
  | simulator r => Simulator.write r

/-- The root an object stands for. -/
def root : RootResource → Root
  | install r => Root.ofMetadata .schedulerInstall r.metadata
  | simulator r => Root.ofMetadata .simulatorDeployment r.metadata

end RootResource

end Converge
