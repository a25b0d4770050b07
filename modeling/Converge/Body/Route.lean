/-
  Converge.Body.Route — gateways, the routes that hang on them, and the grants
  that let routes lead into other namespaces.
-/
import Converge.Json.Codec

namespace Converge

/-! ## §1. Gateways -/

/-- A port on which a gateway listens. -/
structure Listener where
  name : String
  port : Int32
  protocol : String
deriving DecidableEq, Repr, Inhabited

/-- A gateway of a class. -/
structure Gateway where
  className : String
  listeners : List Listener
deriving DecidableEq, Repr, Inhabited

namespace Listener

/-- The wire form of a listener. -/
def toJson (l : Listener) : Json :=
  .obj [("name", .str l.name), ("port", .ofInt32 l.port), ("protocol", .str l.protocol)]

/-- The listener of a wire form. -/
def ofJson? (v : Json) : Option Listener := do
  let ms ← v.record? ["name", "port", "protocol"]
  let name ← Json.required ms "name" Json.text?
  let port ← Json.required ms "port" Json.int32?
  let protocol ← Json.required ms "protocol" Json.text?
  pure { name, port, protocol }

end Listener

namespace Gateway

/-- The wire form of a gateway's spec. -/
def toJson (g : Gateway) : Json :=
  .obj [("gatewayClassName", .str g.className),
    ("listeners", .arr (g.listeners.map Listener.toJson))]

/-- The value of a wire form. -/
def ofJson? (v : Json) : Option Gateway := do
  let ms ← v.record? ["gatewayClassName", "listeners"]
  let className ← Json.required ms "gatewayClassName" Json.text?
  let listeners ← Json.required ms "listeners" (Json.listOf? Listener.ofJson?)
  pure { className, listeners }

end Gateway

/-! ## §2. Routes -/

/-- What a route hangs on. -/
structure ParentRef where
  group : String
  kind : String
  name : String
  ns : Option String := none
deriving DecidableEq, Repr, Inhabited

/-- Which paths a rule takes. -/
structure PathMatch where
  type : String
  value : String
deriving DecidableEq, Repr, Inhabited

/-- Where a rule leads; the core group is the empty text. -/
structure BackendRef where
  group : String
  kind : String
  name : String
  ns : Option String := none
  port : Option Int32 := none
  weight : Option Int32 := none
deriving DecidableEq, Repr, Inhabited

/-- How long a request may take. -/
structure Timeouts where
  backendRequest : String
  request : String
deriving DecidableEq, Repr, Inhabited

/-- Paths, backends and timeouts of one rule. -/
structure RouteRule where
  paths : List PathMatch
  backends : List BackendRef
  timeouts : Option Timeouts := none
deriving DecidableEq, Repr, Inhabited

/-- A route. -/
structure HttpRoute where
  parents : List ParentRef
  rules : List RouteRule
deriving DecidableEq, Repr, Inhabited

namespace ParentRef

/-- The wire form of a parent reference. -/
def toJson (p : ParentRef) : Json :=
  .obj ([("group", .str p.group), ("kind", .str p.kind), ("name", .str p.name)]
    ++ Json.memberOf "namespace" .str p.ns)

/-- The parent reference of a wire form. -/
def ofJson? (v : Json) : Option ParentRef := do
  let ms ← v.record? ["group", "kind", "name", "namespace"]
  let group ← Json.required ms "group" Json.text?
  let kind ← Json.required ms "kind" Json.text?
  let name ← Json.required ms "name" Json.text?
  let ns ← Json.optional ms "namespace" Json.text?
  pure { group, kind, name, ns }

end ParentRef

namespace PathMatch

/-- The wire form of a path match. -/
def toJson (m : PathMatch) : Json :=
  .obj [("path", .obj [("type", .str m.type), ("value", .str m.value)])]

/-- The path match of a wire form. -/
def ofJson? (v : Json) : Option PathMatch := do
  let ms ← v.record? ["path"]
  Json.required ms "path" fun path => do
    let ms ← path.record? ["type", "value"]
    let type ← Json.required ms "type" Json.text?
    let value ← Json.required ms "value" Json.text?
    pure { type, value }

end PathMatch

namespace BackendRef

/-- The wire form of a backend reference. -/
def toJson (b : BackendRef) : Json :=
  .obj ([("group", .str b.group), ("kind", .str b.kind), ("name", .str b.name)]
    ++ Json.memberOf "namespace" .str b.ns
    ++ Json.memberOf "port" Json.ofInt32 b.port
    ++ Json.memberOf "weight" Json.ofInt32 b.weight)

/-- The backend reference of a wire form. -/
def ofJson? (v : Json) : Option BackendRef := do
  let ms ← v.record? ["group", "kind", "name", "namespace", "port", "weight"]
  let group ← Json.required ms "group" Json.text?
  let kind ← Json.required ms "kind" Json.text?
  let name ← Json.required ms "name" Json.text?
  let ns ← Json.optional ms "namespace" Json.text?
  let port ← Json.optional ms "port" Json.int32?
  let weight ← Json.optional ms "weight" Json.int32?
  pure { group, kind, name, ns, port, weight }

end BackendRef

namespace Timeouts

/-- The wire form of a pair of timeouts. -/
def toJson (t : Timeouts) : Json :=
  .obj [("backendRequest", .str t.backendRequest), ("request", .str t.request)]

/-- The pair of timeouts of a wire form. -/
def ofJson? (v : Json) : Option Timeouts := do
  let ms ← v.record? ["backendRequest", "request"]
  let backendRequest ← Json.required ms "backendRequest" Json.text?
  let request ← Json.required ms "request" Json.text?
  pure { backendRequest, request }

end Timeouts

namespace RouteRule

/-- The wire form of a rule of a route. -/
def toJson (r : RouteRule) : Json :=
  .obj ([("backendRefs", .arr (r.backends.map BackendRef.toJson)),
      ("matches", .arr (r.paths.map PathMatch.toJson))]
    ++ Json.memberOf "timeouts" Timeouts.toJson r.timeouts)

/-- The rule of a route of a wire form. -/
def ofJson? (v : Json) : Option RouteRule := do
  let ms ← v.record? ["matches", "backendRefs", "timeouts"]
  let backends ← Json.required ms "backendRefs" (Json.listOf? BackendRef.ofJson?)
  let paths ← Json.required ms "matches" (Json.listOf? PathMatch.ofJson?)
  let timeouts ← Json.optional ms "timeouts" Timeouts.ofJson?
  pure { paths, backends, timeouts }

end RouteRule

namespace HttpRoute

/-- The wire form of a route's spec. -/
def toJson (r : HttpRoute) : Json :=
  .obj [("parentRefs", .arr (r.parents.map ParentRef.toJson)),
    ("rules", .arr (r.rules.map RouteRule.toJson))]

/-- The value of a wire form. -/
def ofJson? (v : Json) : Option HttpRoute := do
  let ms ← v.record? ["parentRefs", "rules"]
  let parents ← Json.required ms "parentRefs" (Json.listOf? ParentRef.ofJson?)
  let rules ← Json.required ms "rules" (Json.listOf? RouteRule.ofJson?)
  pure { parents, rules }

end HttpRoute

/-! ## §3. Grants -/

/-- Objects of a kind in a namespace that may refer. -/
structure GrantFrom where
  group : String
  kind : String
  ns : String
deriving DecidableEq, Repr, Inhabited

/-- Objects of a kind that may be referred to. -/
structure GrantTo where
  group : String
  kind : String
deriving DecidableEq, Repr, Inhabited

/-- Leave to refer to objects in the grant's namespace. -/
structure ReferenceGrant where
  sources : List GrantFrom
  targets : List GrantTo
deriving DecidableEq, Repr, Inhabited

namespace GrantFrom

/-- The wire form of a source of a grant. -/
def toJson (g : GrantFrom) : Json :=
  .obj [("group", .str g.group), ("kind", .str g.kind), ("namespace", .str g.ns)]

/-- The source of a grant of a wire form. -/
def ofJson? (v : Json) : Option GrantFrom := do
  let ms ← v.record? ["group", "kind", "namespace"]
  let group ← Json.required ms "group" Json.text?
  let kind ← Json.required ms "kind" Json.text?
  let ns ← Json.required ms "namespace" Json.text?
  pure { group, kind, ns }

end GrantFrom

namespace GrantTo

/-- The wire form of a target of a grant. -/
def toJson (g : GrantTo) : Json := .obj [("group", .str g.group), ("kind", .str g.kind)]

/-- The target of a grant of a wire form. -/
def ofJson? (v : Json) : Option GrantTo := do
  let ms ← v.record? ["group", "kind"]
  let group ← Json.required ms "group" Json.text?
  let kind ← Json.required ms "kind" Json.text?
  pure { group, kind }

end GrantTo

namespace ReferenceGrant

/-- The wire form of a grant's spec. -/
def toJson (g : ReferenceGrant) : Json :=
  .obj [("from", .arr (g.sources.map GrantFrom.toJson)),
    ("to", .arr (g.targets.map GrantTo.toJson))]

/-- The value of a wire form. -/
def ofJson? (v : Json) : Option ReferenceGrant := do
  let ms ← v.record? ["from", "to"]
  let sources ← Json.required ms "from" (Json.listOf? GrantFrom.ofJson?)
  let targets ← Json.required ms "to" (Json.listOf? GrantTo.ofJson?)
  pure { sources, targets }

end ReferenceGrant

end Converge
