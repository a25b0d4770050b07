/-
  Converge.Schema.Definition — the definitions that make a cluster serve the two
  kinds of root.

  A definition names the kind and carries the schema of its objects.  The status
  is a part of its own, so that writing it leaves the spec alone.
-/
import Converge.Root
import Converge.Schema.Install
import Converge.Schema.Simulator
import Converge.Schema.Status
import Converge.Yaml.Writer

namespace Converge

namespace RootKind

/-- Every kind of root, in order. -/
def all : List RootKind := [schedulerInstall, simulatorDeployment]

/-- The short name of the kind on command lines. -/
def shortName : RootKind → String
  | schedulerInstall => "schedinst"
  | simulatorDeployment => "simdep"

/-- The name of one object of the kind in request paths. -/
def singular : RootKind → String
  | schedulerInstall => "schedulerinstall"
  | simulatorDeployment => "simulatordeployment"

/-- The schema of the kind's spec. -/
def specSchema : RootKind → Schema
  | schedulerInstall => Schema.install
  | simulatorDeployment => Schema.simulator

/-- The schema of the kind's status. -/
def statusSchema : RootKind → Schema
  | schedulerInstall => Schema.installStatus
  | simulatorDeployment => Schema.simulatorStatus

/-- The schema of the kind's objects. -/
def schema (k : RootKind) : Schema :=
  .record [("spec", k.specSchema), ("status", k.statusSchema)] ["spec"]
    { title := some k.kind.name
      description := some ("Auto-generated derived type for " ++ k.kind.name
        ++ "Spec via `CustomResource`") }

/-- The definition of the kind. -/
def definition (k : RootKind) : Json :=
  .obj [("apiVersion", .str "apiextensions.k8s.io/v1"),
    ("kind", .str "CustomResourceDefinition"),
    ("metadata", .obj [("name", .str (k.kind.plural ++ "." ++ k.kind.group))]),
    ("spec", .obj [
      ("group", .str k.kind.group),
      ("names", .obj [("categories", .arr []), ("kind", .str k.kind.name),
        ("plural", .str k.kind.plural), ("shortNames", .ofStrings [k.shortName]),
        ("singular", .str k.singular)]),
      ("scope", .str "Namespaced"),
      ("versions", .arr [.obj [
        ("additionalPrinterColumns", .arr []),
        ("name", .str k.kind.version),
        ("schema", .obj [("openAPIV3Schema", k.schema.toJson)]),
        ("served", .bool true),
        ("storage", .bool true),
        ("subresources", .obj [("status", .obj [])])]])])]

end RootKind

/-- The definitions of all kinds as documents of one text, which ends with an
    empty line. -/
def definitionsText : String :=
  String.intercalate "---\n" (RootKind.all.map fun k => Yaml.document k.definition) ++ "\n"

end Converge
