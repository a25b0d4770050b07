/-
  Converge.Body.Access — roles and their bindings.
-/
import Converge.Json.Codec
import Converge.Kind

namespace Converge

/-- What a role allows: verbs on resources of API groups. -/
structure AccessRule where
  groups : List String
  resources : List String
  verbs : List String
deriving DecidableEq, Repr, Inhabited

/-- The wire form of a rule of a role. -/
def AccessRule.toJson (r : AccessRule) : Json :=
  .obj [("apiGroups", .ofStrings r.groups), ("resources", .ofStrings r.resources),
    ("verbs", .ofStrings r.verbs)]

/-- A role. -/
structure Role where
  rules : List AccessRule
deriving DecidableEq, Repr, Inhabited

/-- The grant of a role to a service account. -/
structure RoleBinding where
  role : String
  account : String
  accountNamespace : String
deriving DecidableEq, Repr, Inhabited

namespace Role

/-- The body of a role's wire form. -/
def bodyJson (r : Role) : Json := .obj [("rules", .arr (r.rules.map AccessRule.toJson))]

end Role

namespace RoleBinding

/-- The body of a binding's wire form. -/
def bodyJson (b : RoleBinding) : Json :=
  .obj [("roleRef", .obj [("apiGroup", .str rbacGroup), ("kind", .str Kind.role.name),
      ("name", .str b.role)]),
    ("subjects", .arr [.obj [("kind", .str Kind.serviceAccount.name), ("name", .str b.account),
      ("namespace", .str b.accountNamespace)]])]

end RoleBinding

end Converge
