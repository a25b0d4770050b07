/-
  Converge.Api.Request — requests to an API server.

  Every store call is one request.  The core group lives under `/api`, all other
  groups under `/apis`, and every object under its namespace and the collection
  of its kind.  Writes name the field manager on whose behalf they are made.
  Bodies go over the wire as texts.
-/
import Converge.Json.Shape
import Converge.Json.Writer
import Converge.Store.Call
import Converge.Target
import Converge.Text.Percent

namespace Converge

/-! ## §1. Requests -/

/-- The verbs. -/
inductive Verb where
  | get
  | post
  | put
  | patch
  | delete
deriving DecidableEq, Repr, Inhabited

/-- The name of a verb. -/
def Verb.name : Verb → String
  | get => "GET"
  | post => "POST"
  | put => "PUT"
  | patch => "PATCH"
  | delete => "DELETE"

/-- A request. -/
structure ApiRequest where
  verb : Verb
  path : String
  /-- The parameters of the query, if there is one. -/
  query : Option (List (String × String)) := none
  body : Option Json := none
deriving DecidableEq, Inhabited

/-- Why a request cannot be sent at all. -/
inductive Unsendable where
  /-- The object addressed has no name. -/
  | unnamed
  /-- The name of the field manager is too long. -/
  | longManager
  /-- The text of the target is none. -/
  | badTarget (fault : TargetFault)
deriving DecidableEq, Repr, Inhabited

namespace Unsendable

/-- The text of a fault. -/
def message : Unsendable → String
  | unnamed => "failed to validate request: A non-empty name is required"
  | longManager => "failed to validate request: Failed to validate PostParams::field_manager!"
  | badTarget fault => "failed to build request: " ++ fault.message

end Unsendable

namespace ApiRequest

/-- One parameter of a query. -/
def parameter (p : String × String) : String := "&" ++ Text.percent p.1 ++ "=" ++ Text.percent p.2

/-- The text of the target: names in the path come as they are. -/
def targetText (r : ApiRequest) : String :=
  match r.query with
  | none => r.path
  | some ps => r.path ++ "?" ++ String.join (ps.map parameter)

/-- The target as the server sees it. -/
def target (r : ApiRequest) : Target := Target.ofText r.targetText

/-- The request as it arrives: its body is read from the text that was sent, which
    sorts the members of objects and reads every number once more. -/
def received (r : ApiRequest) : ApiRequest :=
  { r with body := r.body.bind fun v => Json.read? (Json.write v) }

/-- Why a request cannot be sent. -/
def unsendable? (r : ApiRequest) : Option Unsendable :=
  (Target.fault? r.targetText).map .badTarget

end ApiRequest

/-! ## §2. Paths -/

namespace Kind

/-- The path of an API group at the version at which the kind is written. -/
def groupPath (k : Kind) : String :=
  if k.group = "" then "/api/" ++ k.version else "/apis/" ++ k.group ++ "/" ++ k.version

/-- The path of the objects of the kind in a namespace. -/
def collectionPath (k : Kind) (ns : String) : String :=
  k.groupPath ++ "/namespaces/" ++ ns ++ "/" ++ k.plural

end Kind

/-- The path of an object. -/
def Key.path (key : Key) : String := key.kind.collectionPath key.ns ++ "/" ++ key.name

/-! ## §3. Store calls as requests -/

/-- An object as a request carries it: type information and metadata come first. -/
def Object.toBody (o : Object) : Json :=
  let typed : List (String × Json) := match o.types with
    | some t => [("apiVersion", .str t.apiVersion), ("kind", .str t.kind)]
    | none => []
  .obj (typed ++ [("metadata", o.metadata.toJson)] ++ o.data.members?.getD [])

namespace StoreCall

/-- The request that makes a call on behalf of a field manager. -/
def toRequest (manager : String) : StoreCall → ApiRequest
  | get key => { verb := .get, path := key.path }
  | create key o =>
    { verb := .post
      path := key.kind.collectionPath key.ns
      query := some [("fieldManager", manager)]
      body := some o.toBody }
  | update key o =>
    { verb := .put
      path := key.path
      query := some [("fieldManager", manager)]
      body := some o.toBody }
  | updateStatus key o =>
    { verb := .put
      path := key.path ++ "/status"
      query := some [("fieldManager", manager)]
      body := some o.toBody }
  | list kind ns selector =>
    { verb := .get
      path := kind.collectionPath ns
      query := some [("labelSelector", selector)] }
  | delete key => { verb := .delete, path := key.path, query := some [], body := some (.obj []) }

/-- Whether a call addresses a single object by its name. -/
def isNamed : StoreCall → Bool
  | create _ _ | list _ _ _ => false
  | get _ | update _ _ | updateStatus _ _ | delete _ => true

/-- Whether a call makes a new object. -/
def isCreation : StoreCall → Bool
  | create _ _ => true
  | get _ | update _ _ | updateStatus _ _ | list _ _ _ | delete _ => false

/-- The longest name of a field manager that may create objects, in bytes. -/
def longestManager : Nat := 128

/-- Why the request of a call cannot be sent. -/
def unsendable? (manager : String) (c : StoreCall) : Option Unsendable :=
  if c.isNamed && c.key.name = "" then some .unnamed
  else if c.isCreation && decide (longestManager < manager.utf8ByteSize) then some .longManager
  else (c.toRequest manager).unsendable?

end StoreCall

end Converge
