/-
  Converge.Kind — the kinds of object the controller reads or writes.

  The constructors stand in the order in which kinds sort.
-/

namespace Converge

/-- A kind of object. -/
inductive Kind where
  | serviceAccount
  | role
  | roleBinding
  | configMap
  | deployment
  | service
  | gateway
  | httpRoute
  | referenceGrant
  | destinationRule
  | schedulerInstall
  | simulatorDeployment
deriving DecidableEq, Repr, Inhabited

/-- The API group of the two root kinds. -/
def rootGroup : String := "sim.llm-d.io"

/-- The version of the two root kinds. -/
def rootVersion : String := "v1alpha1"

/-- The API group of gateways, routes and grants. -/
def gatewayGroup : String := "gateway.networking.k8s.io"

/-- The API group of roles and role bindings. -/
def rbacGroup : String := "rbac.authorization.k8s.io"

namespace Kind

/-! ## §1. Names -/

/-- Every kind, in order. -/
def all : List Kind :=
  [serviceAccount, role, roleBinding, configMap, deployment, service, gateway, httpRoute,
    referenceGrant, destinationRule, schedulerInstall, simulatorDeployment]

/-- The name of a kind. -/
def name : Kind → String
  | serviceAccount => "ServiceAccount"
  | role => "Role"
  | roleBinding => "RoleBinding"
  | configMap => "ConfigMap"
  | deployment => "Deployment"
  | service => "Service"
  | gateway => "Gateway"
  | httpRoute => "HTTPRoute"
  | referenceGrant => "ReferenceGrant"
  | destinationRule => "DestinationRule"
  | schedulerInstall => "SchedulerInstall"
  | simulatorDeployment => "SimulatorDeployment"

/-- The kind of a name. -/
def ofName? (s : String) : Option Kind := all.find? fun k => k.name = s

/-- The name of the collection of a kind in request paths. -/
def plural : Kind → String
  | serviceAccount => "serviceaccounts"
  | role => "roles"
  | roleBinding => "rolebindings"
  | configMap => "configmaps"
  | deployment => "deployments"
  | service => "services"
  | gateway => "gateways"
  | httpRoute => "httproutes"
  | referenceGrant => "referencegrants"
  | destinationRule => "destinationrules"
  | schedulerInstall => "schedulerinstalls"
  | simulatorDeployment => "simulatordeployments"

/-- The API group of a kind; the core group is the empty text. -/
def group : Kind → String
  | serviceAccount | configMap | service => ""
  | role | roleBinding => rbacGroup
  | deployment => "apps"
  | gateway | httpRoute | referenceGrant => gatewayGroup
  | destinationRule => "networking.istio.io"
  | schedulerInstall | simulatorDeployment => rootGroup

/-- The version of its group at which a kind is written. -/
def version : Kind → String
  | referenceGrant | destinationRule => "v1beta1"
  | schedulerInstall | simulatorDeployment => rootVersion
  | _ => "v1"

/-- Group and version as objects carry them. -/
def apiVersion (k : Kind) : String :=
  if k.group = "" then k.version else k.group ++ "/" ++ k.version

/-! ## §2. Classes of kinds -/

/-- The kinds a cluster may lack, in the order in which discovery asks for them. -/
def optionals : List Kind := [gateway, httpRoute, referenceGrant, destinationRule]

/-- Whether a cluster may lack the kind. -/
def isOptional (k : Kind) : Bool := optionals.contains k

/-- The kinds of the objects a root may have, in order. -/
def children : List Kind :=
  [serviceAccount, role, roleBinding, configMap, deployment, service, gateway, httpRoute,
    referenceGrant, destinationRule]

/-! ## §3. Order -/

/-- The place of a kind in the order. -/
def rank : Kind → Nat
  | serviceAccount => 0
  | role => 1
  | roleBinding => 2
  | configMap => 3
  | deployment => 4
  | service => 5
  | gateway => 6
  | httpRoute => 7
  | referenceGrant => 8
  | destinationRule => 9
  | schedulerInstall => 10
  | simulatorDeployment => 11

instance : LT Kind := ⟨fun a b => a.rank < b.rank⟩

instance : DecidableLT Kind := fun a b => inferInstanceAs (Decidable (a.rank < b.rank))

theorem rank_injective {a b : Kind} (h : a.rank = b.rank) : a = b := by
  cases a <;> cases b <;> simp_all [rank]

theorem ofName?_name (k : Kind) : ofName? k.name = some k := by
  cases k <;> decide

end Kind

end Converge
