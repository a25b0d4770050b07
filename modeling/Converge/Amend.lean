/-
  Converge.Amend — bringing an existing object in line with a child.

  The child's body is laid over the object's data.  Three tables make exceptions:
  members in `immutable` are never changed, members in `replaced` end up
  exactly as desired, and members in `cleared` are dropped once the body stops
  carrying them.  An object that is in line already is not written at all.
-/
import Converge.Child
import Converge.Json.Overlay

namespace Converge

open Json (Step)

/-! ## §1. The tables -/

/-- Members of the parts at the end of a path, for objects of one kind. -/
structure OwnedMembers where
  kind : Kind
  parent : List Step
  keys : List String
deriving DecidableEq, Repr, Inhabited

namespace Amend

/-- A path of members. -/
def members (names : List String) : List Step := names.map Step.member

/-- The containers of a deployment. -/
def containers : List Step := members ["spec", "template", "spec", "containers"] ++ [.entries]

/-- The rules of a route. -/
def routeRules : List Step := members ["spec", "rules"] ++ [.entries]

/-- Members set to exactly the desired value, or dropped with it. -/
def replaced : List OwnedMembers := [
  ⟨.service, members ["spec"], ["selector"]⟩,
  ⟨.configMap, [], ["data"]⟩,
  ⟨.deployment, containers, ["resources", "args"]⟩,
  ⟨.httpRoute, routeRules, ["backendRefs"]⟩]

/-- Members dropped when the body omits them, and laid over otherwise. -/
def cleared : List OwnedMembers := [
  ⟨.deployment, members ["spec", "template", "metadata"], ["annotations"]⟩,
  ⟨.deployment, members ["spec", "template", "spec"], ["volumes"]⟩,
  ⟨.deployment, containers,
    ["env", "ports", "livenessProbe", "readinessProbe", "startupProbe", "volumeMounts"]⟩,
  ⟨.httpRoute, routeRules, ["timeouts"]⟩,
  ⟨.destinationRule, members ["spec", "trafficPolicy"], ["connectionPool"]⟩]

/-- Paths never changed on an existing object. -/
def immutable : List (Kind × List String) := [
  (.deployment, ["spec", "selector"]),
  (.roleBinding, ["roleRef"])]

/-! ## §2. Steps -/

/-- Set or drop one member as the desired part has it. -/
def replaceMember (want : Json) (cur : Json) (key : String) : Json :=
  match want.get? key with
  | some v => if cur.isObject then cur.setMember key v else cur
  | none => cur.dropMember key

/-- Drop one member if the desired part omits it. -/
def clearMember (want : Json) (cur : Json) (key : String) : Json :=
  match want.get? key with
  | some _ => cur
  | none => cur.dropMember key

/-- Apply a step to the members of every row of a table that is of the kind. -/
def alongRows (step : Json → Json → String → Json) (rows : List OwnedMembers) (kind : Kind)
    (data want : Json) : Json :=
  (rows.filter fun row => row.kind = kind).foldl
    (fun data row =>
      Json.zipAlong (fun cur want => row.keys.foldl (step want) cur) row.parent data want)
    data

/-- A body without the members that are never changed. -/
def withoutImmutable (kind : Kind) (body : Json) : Json :=
  (immutable.filter fun row => row.1 = kind).foldl (fun body row => Json.dropAlong row.2 body) body

/-- The data of an object after a body of the kind has been laid over it. -/
def data (kind : Kind) (body cur : Json) : Json :=
  let want := withoutImmutable kind body
  let start := if cur.isObject then cur else .obj []
  let laid := (Json.overlay start want).1
  -- laying over has lined the lists up, so that parts and counterparts now sit at one position
  alongRows clearMember cleared kind (alongRows replaceMember replaced kind laid want) want

/-- Write managed labels; the mark tells whether one of them was new or different. -/
def labels (managed cur : Table String String) : Table String String × Bool :=
  managed.foldl
    (fun acc e =>
      if Table.get? acc.1 e.1 = some e.2 then acc else (Table.insert acc.1 e.1 e.2, true))
    (cur, false)

end Amend

/-! ## §3. The whole -/

/-- The object to write back, or `none` when `cur` is in line with the child. -/
def Child.amend? (c : Child) (cur : Object) : Option Object :=
  let (labels, relabelled) := Amend.labels c.managedLabels (cur.metadata.labels.getD [])
  let data := Amend.data c.body.kind c.body.toJson cur.data
  -- other labels, and all else in the metadata, belong to other actors
  if relabelled || decide (data ≠ cur.data) then
    some { cur with metadata := { cur.metadata with labels := some labels }, data }
  else none

end Converge
