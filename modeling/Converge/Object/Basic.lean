/-
  Converge.Object.Basic — an object as the store holds it.

  Type information and metadata are typed, all else is kept as it came.
-/
import Converge.Object.Metadata

namespace Converge

/-- The `apiVersion` and `kind` of an object. -/
structure TypeInfo where
  apiVersion : String
  kind : String
deriving DecidableEq, Repr, Inhabited

/-- An object of any kind. -/
structure Object where
  types : Option TypeInfo := none
  metadata : Metadata := {}
  data : Json := .null
deriving DecidableEq, Inhabited

namespace Object

/-- Take the type information out of members, given what was taken before.  Both
    members count only together.  The first one that is no text, or comes again,
    is taken as well, and ends the search: members after it stay. -/
def takeTypes (apiVersion kind : Option String) :
    List (String × Json) → Option TypeInfo × List (String × Json)
  | [] => (match apiVersion, kind with
    | some apiVersion, some kind => some ⟨apiVersion, kind⟩
    | _, _ => none, [])
  | (k, v) :: rest =>
    if k = "apiVersion" then
      match apiVersion, v with
      | none, .str s => takeTypes (some s) kind rest
      | _, _ => (none, rest)
    else if k = "kind" then
      match kind, v with
      | none, .str s => takeTypes apiVersion (some s) rest
      | _, _ => (none, rest)
    else
      let (types, rest) := takeTypes apiVersion kind rest
      (types, (k, v) :: rest)

/-- The object of a wire form. -/
def ofJson? (v : Json) : Option Object := do
  let ms ← v.members?
  let (types, rest) := takeTypes none none ms
  let metadata ← Json.field rest "metadata" (some {}) Metadata.ofJson?
  pure { types, metadata, data := Json.ofMembers (Table.erase rest "metadata") }

/-- What a text of an object has. -/
def shape : Shape := .record .strict true [.plain "metadata" Metadata.shape]

/-- The object that a text writes. -/
def read? (text : String) : Option Object := (Json.readAs? shape text).bind ofJson?

/-- The wire form of an object. -/
def toJson (o : Object) : Json :=
  let typed : Table String Json := match o.types with
    | some t => [("apiVersion", .str t.apiVersion), ("kind", .str t.kind)]
    | none => []
  .obj (Table.insertAll (Table.insertAll typed [("metadata", o.metadata.toJson)])
    (o.data.members?.getD []))

end Object

end Converge
