/-
  Converge.RootSpec — a spec of either kind.
-/
import Converge.Install.Children
import Converge.Simulator.Children
import Converge.Simulator.Defaults

namespace Converge

/-- A spec of one of the two kinds of root. -/
inductive RootSpec where
  | install (s : Install.Spec)
  | simulator (s : Simulator.Spec)
deriving DecidableEq, Inhabited

namespace RootSpec

/-- The spec of a wire form, read as a kind. -/
def read? (kind : RootKind) (v : Json) : Option RootSpec :=
  match kind with
  | .schedulerInstall => (Install.Spec.ofJson? v).map install
  | .simulatorDeployment => (Simulator.Spec.ofJson? v).map simulator

/-- The wire form. -/
def write : RootSpec → Json
  | install s => s.toJson
  | simulator s => s.toJson

/-- The spec with its defaults, for a root of the given name and namespace. -/
def withDefaults (name ns : String) : RootSpec → RootSpec
  | install s => install (s.withDefaults name ns)
  | simulator s => simulator (s.withDefaults name)

/-- The first fault of the spec. -/
def validate : RootSpec → Except SpecError Unit
  | install s => s.validate
  | simulator s => s.validate

/-- The children of a root with the spec. -/
def children (root : Root) (caps : Capabilities) : RootSpec → List Child
  | install s => s.children root caps
  | simulator s => s.children root caps

end RootSpec

end Converge
