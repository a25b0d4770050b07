/-
  Converge.Api.Served — which kinds an API server serves.

  The server lists the resources of a group and version.  A kind that is not in
  the list is not served, nor is any kind of a group the server does not know.
  When the question itself fails, the kind is taken for served, so that the
  write that follows brings the true fault to light.
-/
import Converge.Api.Answer

namespace Converge

/-- One resource a group has. -/
structure ApiResource where
  kind : String
  name : String
deriving DecidableEq, Repr, Inhabited

namespace ApiResource

/-- A resource of a wire form; a missing text is empty. -/
def ofJson? (v : Json) : Option ApiResource := do
  let ms ← v.members?
  let kind ← Json.optional ms "kind" Json.text?
  let name ← Json.optional ms "name" Json.text?
  pure { kind := kind.getD "", name := name.getD "" }

/-- What a text of a resource has. -/
def shape : Shape := .record .lenient false [
  .optional "categories" (.list .anyText), .optional "group" .anyText,
  .optional "kind" .anyText, .optional "name" .anyText, .optional "namespaced" .flag,
  .optional "shortNames" (.list .anyText), .optional "singularName" .anyText,
  .optional "storageVersionHash" .anyText, .optional "verbs" (.list .anyText),
  .optional "version" .anyText]

/-- What a text of a list of resources has. -/
def listShape : Shape := .record .lenient false [
  .plain "apiVersion" (.word "v1"), .plain "kind" (.word "APIResourceList"),
  .optional "groupVersion" .anyText, .optional "resources" (.list shape)]

/-- The resources in the text of a list of resources. -/
def listed? (text : String) : Option (List ApiResource) := do
  let ms ← (← Json.readAs? listShape text).members?
  let resources ← Json.optional ms "resources" (Json.listOf? ofJson?)
  pure (resources.getD [])

/-- Whether the resource holds the objects of a kind: parts of objects, whose
    names have a slash, do not. -/
def holds (r : ApiResource) (k : Kind) : Bool := r.kind == k.name && !r.name.toList.contains '/'

end ApiResource

namespace Kind

/-- The request for the resources of the kind's group and version. -/
def discoveryRequest (k : Kind) : ApiRequest := { verb := .get, path := k.groupPath }

/-- Whether an answer says that the kind is served. -/
def servedBy (k : Kind) : Except ApiFault String → Bool
  | .ok text => match ApiResource.listed? text with
    | some resources => resources.any fun r => r.holds k
    | none => true
  | .error (.refused r) => r.code != 404
  | .error _ => true

end Kind

end Converge
