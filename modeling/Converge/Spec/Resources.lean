/-
  Converge.Spec.Resources — what a container asks of its node.

  An absent block and an empty block are different: both survive reading and
  writing.
-/
import Converge.Json.Codec

namespace Converge

/-- A claim on a shared device. -/
structure ResourceClaim where
  name : String := ""
  request : Option String := none
deriving DecidableEq, Repr, Inhabited

/-- Claims, upper limits and requested amounts of a container. -/
structure Resources where
  claims : Option (List ResourceClaim) := none
  limits : Option (Table String String) := none
  requests : Option (Table String String) := none
deriving DecidableEq, Repr, Inhabited

namespace ResourceClaim

/-- The wire form of a claim. -/
def toJson (c : ResourceClaim) : Json :=
  .obj ([("name", .str c.name)] ++ Json.memberOf "request" .str c.request)

/-- A claim from its wire form; a missing or null name is empty. -/
def ofJson? (v : Json) : Option ResourceClaim := do
  let ms ← v.members?
  let name ← Json.optional ms "name" Json.text?
  let request ← Json.optional ms "request" Json.text?
  pure { name := name.getD "", request }

end ResourceClaim

namespace Resources

/-- The wire form. -/
def toJson (r : Resources) : Json :=
  .obj (Json.memberOf "claims" (fun cs => .arr (cs.map ResourceClaim.toJson)) r.claims
    ++ Json.memberOf "limits" Json.ofTexts r.limits
    ++ Json.memberOf "requests" Json.ofTexts r.requests)

/-- The value of a wire form. -/
def ofJson? (v : Json) : Option Resources := do
  let ms ← v.members?
  let claims ← Json.optional ms "claims" (Json.listOf? ResourceClaim.ofJson?)
  let limits ← Json.optional ms "limits" Json.texts?
  let requests ← Json.optional ms "requests" Json.texts?
  pure { claims, limits, requests }

end Resources

end Converge
