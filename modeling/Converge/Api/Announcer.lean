/-
  Converge.Api.Announcer — telling events to an API server.

  An event that was told before, of the same severity and reason and about the
  same root, is not told anew: the first one is counted up, and its note stays.
  An event the server did not take is not remembered.
-/
import Converge.Api.Answer
import Converge.Pass.Basic

namespace Converge

/-- What makes two events the same. -/
structure Topic where
  severity : Severity
  reason : String
  root : Root
deriving DecidableEq, Repr, Inhabited

/-- An event that was told: its note, and how often it came up. -/
structure Telling where
  note : Option String
  count : Nat
deriving DecidableEq, Repr, Inhabited

/-- Everything told so far. -/
abbrev Told := Table Topic Telling

namespace Announcer

/-- The action every event is about. -/
def action : String := "Reconcile"

/-- The API version of events. -/
def apiVersion : String := "events.k8s.io/v1"

/-- The path of the events of a namespace. -/
def eventsPath (ns : String) : String := "/apis/" ++ apiVersion ++ "/namespaces/" ++ ns ++ "/events"

/-- The name of an event: its root and the time of its first telling. -/
def eventName (root : Root) (now : String) : String := root.name ++ "." ++ now

/-- The root as an event refers to it; an empty uid is left out. -/
def regarding (root : Root) : Json :=
  .obj ([("apiVersion", .str root.kind.kind.apiVersion), ("kind", .str root.kind.kind.name),
      ("name", .str root.name), ("namespace", .str root.ns)]
    ++ Json.textMember "uid" root.uid)

/-- The wire form of an event; one that is told for the first time has no series. -/
def body (manager now : String) (topic : Topic) (t : Telling) : Json :=
  .obj ([("action", .str action), ("apiVersion", .str apiVersion), ("eventTime", .str now),
      ("kind", .str "Event"),
      ("metadata", .obj [("name", .str (eventName topic.root now)),
        ("namespace", .str topic.root.ns)])]
    ++ Json.memberOf "note" .str t.note
    ++ [("reason", .str topic.reason), ("regarding", regarding topic.root),
      ("reportingController", .str manager), ("reportingInstance", .str manager)]
    ++ Json.memberIf (decide (1 < t.count)) "series"
      (.obj [("count", .int t.count), ("lastObservedTime", .str now)])
    ++ [("type", .str topic.severity.name)])

/-- The topic of an event. -/
def topicOf (root : Root) (e : Event) : Topic := ⟨e.severity, e.reason, root⟩

/-- What is to be told of an event in view of what was told before. -/
def telling (told : Told) (root : Root) (e : Event) : Telling :=
  match Table.get? told (topicOf root e) with
  | some t => { t with count := t.count + 1 }
  | none => { note := e.note, count := 1 }

/-- The request that tells an event: the first time a new object, later a change
    of the first one. -/
def request (manager now : String) (topic : Topic) (t : Telling) : ApiRequest :=
  let ns := topic.root.ns
  if t.count = 1 then
    { verb := .post
      path := eventsPath ns
      query := some []
      body := some (body manager now topic t) }
  else
    { verb := .patch
      path := eventsPath ns ++ "/" ++ eventName topic.root now
      query := some []
      body := some (body manager now topic t) }

/-- What a text of a reference to an object has. -/
def referenceShape : Shape := .record .lenient false [
  .optional "apiVersion" .anyText, .optional "fieldPath" .anyText, .optional "kind" .anyText,
  .optional "name" .anyText, .optional "namespace" .anyText, .optional "resourceVersion" .anyText,
  .optional "uid" .anyText]

/-- What a text of an event has. -/
def shape : Shape := .record .lenient false [
  .plain "apiVersion" (.word apiVersion), .plain "kind" (.word "Event"),
  .optional "action" .anyText, .optional "deprecatedCount" .int32,
  .optional "deprecatedFirstTimestamp" .timestamp, .optional "deprecatedLastTimestamp" .timestamp,
  .optional "deprecatedSource" (.record .lenient false [
    .optional "component" .anyText, .optional "host" .anyText]),
  .optional "eventTime" .timestamp, .optional "metadata" Metadata.shape,
  .optional "note" .anyText, .optional "reason" .anyText, .optional "regarding" referenceShape,
  .optional "related" referenceShape, .optional "reportingController" .anyText,
  .optional "reportingInstance" .anyText,
  .optional "series" (.record .lenient false [
    .optional "count" .int32, .needed "lastObservedTime" .timestamp]),
  .optional "type" .anyText]

/-- Whether the server took an event. -/
def taken : Except ApiFault String → Bool
  | .ok text => (Json.readAs? shape text).isSome
  | .error _ => false

/-- What is remembered after an event was told. -/
def remember (told : Told) (topic : Topic) (t : Telling) (outcome : Except ApiFault String) : Told :=
  if taken outcome then
    if Table.has told topic then Table.replace told topic t else told ++ [(topic, t)]
  else told

end Announcer

end Converge
