/-
  Converge.Object.Metadata — the typed metadata of an object.

  Absent members are not written; empty tables and lists that are present are.
  Members the record does not name are dropped, and `null` reads as absent.
-/
import Converge.Json.Codec
import Converge.Json.Shape
import Converge.Object.Timestamp

namespace Converge

/-- A reference from an object to its owner. -/
structure OwnerReference where
  apiVersion : String
  kind : String
  name : String
  uid : String
  controller : Option Bool := none
  blockOwnerDeletion : Option Bool := none
deriving DecidableEq, Repr, Inhabited

/-- What one writer of an object manages. -/
structure Management where
  apiVersion : Option String := none
  fieldsType : Option String := none
  fields : Option Json := none
  manager : Option String := none
  operation : Option String := none
  subresource : Option String := none
  time : Option String := none
deriving DecidableEq, Inhabited

/-- The metadata of an object. -/
structure Metadata where
  name : Option String := none
  generateName : Option String := none
  ns : Option String := none
  uid : Option String := none
  generation : Option Int64 := none
  resourceVersion : Option String := none
  labels : Option (Table String String) := none
  annotations : Option (Table String String) := none
  finalizers : Option (List String) := none
  owners : Option (List OwnerReference) := none
  deletionTimestamp : Option String := none
  creationTimestamp : Option String := none
  /-- How long a deletion may take. -/
  graceSeconds : Option Int64 := none
  managed : Option (List Management) := none
  selfLink : Option String := none
deriving DecidableEq, Inhabited

namespace OwnerReference

/-- The wire form. -/
def toJson (r : OwnerReference) : Json :=
  .obj ([("apiVersion", .str r.apiVersion)]
    ++ Json.memberOf "blockOwnerDeletion" .bool r.blockOwnerDeletion
    ++ Json.memberOf "controller" .bool r.controller
    ++ [("kind", .str r.kind), ("name", .str r.name), ("uid", .str r.uid)])

/-- The value of a wire form; a missing or null text is empty. -/
def ofJson? (v : Json) : Option OwnerReference := do
  let ms ← v.members?
  let apiVersion ← Json.optional ms "apiVersion" Json.text?
  let blockOwnerDeletion ← Json.optional ms "blockOwnerDeletion" Json.bool?
  let controller ← Json.optional ms "controller" Json.bool?
  let kind ← Json.optional ms "kind" Json.text?
  let name ← Json.optional ms "name" Json.text?
  let uid ← Json.optional ms "uid" Json.text?
  pure {
    apiVersion := apiVersion.getD ""
    kind := kind.getD ""
    name := name.getD ""
    uid := uid.getD ""
    controller, blockOwnerDeletion }

/-- What a text of a reference has. -/
def shape : Shape := .record .lenient false [
  .optional "apiVersion" .anyText, .optional "blockOwnerDeletion" .flag,
  .optional "controller" .flag, .optional "kind" .anyText, .optional "name" .anyText,
  .optional "uid" .anyText]

end OwnerReference

/-- The normal form of a timestamp. -/
def Json.timestamp? (v : Json) : Option String := v.text?.bind Timestamp.normal?

/-- A text that is a timestamp. -/
def Shape.timestamp : Shape := .text Timestamp.isValid

namespace Management

/-- The wire form. -/
def toJson (m : Management) : Json :=
  .obj (Json.memberOf "apiVersion" .str m.apiVersion
    ++ Json.memberOf "fieldsType" .str m.fieldsType
    ++ Json.memberOf "fieldsV1" id m.fields
    ++ Json.memberOf "manager" .str m.manager
    ++ Json.memberOf "operation" .str m.operation
    ++ Json.memberOf "subresource" .str m.subresource
    ++ Json.memberOf "time" .str m.time)

/-- The value of a wire form. -/
def ofJson? (v : Json) : Option Management := do
  let ms ← v.members?
  let apiVersion ← Json.optional ms "apiVersion" Json.text?
  let fieldsType ← Json.optional ms "fieldsType" Json.text?
  let fields ← Json.optional ms "fieldsV1" some
  let manager ← Json.optional ms "manager" Json.text?
  let operation ← Json.optional ms "operation" Json.text?
  let subresource ← Json.optional ms "subresource" Json.text?
  let time ← Json.optional ms "time" Json.timestamp?
  pure { apiVersion, fieldsType, fields, manager, operation, subresource, time }

/-- What a text of an entry has. -/
def shape : Shape := .record .lenient false [
  .optional "apiVersion" .anyText, .optional "fieldsType" .anyText, .optional "fieldsV1" .any,
  .optional "manager" .anyText, .optional "operation" .anyText, .optional "subresource" .anyText,
  .optional "time" .timestamp]

end Management

namespace Metadata

/-- A 64-bit word as a number. -/
def ofInt64 (n : Int64) : Json := .int n.toInt

/-- The wire form. -/
def toJson (m : Metadata) : Json :=
  .obj (Json.memberOf "annotations" Json.ofTexts m.annotations
    ++ Json.memberOf "creationTimestamp" .str m.creationTimestamp
    ++ Json.memberOf "deletionGracePeriodSeconds" ofInt64 m.graceSeconds
    ++ Json.memberOf "deletionTimestamp" .str m.deletionTimestamp
    ++ Json.memberOf "finalizers" Json.ofStrings m.finalizers
    ++ Json.memberOf "generateName" .str m.generateName
    ++ Json.memberOf "generation" ofInt64 m.generation
    ++ Json.memberOf "labels" Json.ofTexts m.labels
    ++ Json.memberOf "managedFields" (fun es => .arr (es.map Management.toJson)) m.managed
    ++ Json.memberOf "name" .str m.name
    ++ Json.memberOf "namespace" .str m.ns
    ++ Json.memberOf "ownerReferences" (fun rs => .arr (rs.map OwnerReference.toJson)) m.owners
    ++ Json.memberOf "resourceVersion" .str m.resourceVersion
    ++ Json.memberOf "selfLink" .str m.selfLink
    ++ Json.memberOf "uid" .str m.uid)

/-- The value of a wire form. -/
def ofJson? (v : Json) : Option Metadata := do
  let ms ← v.members?
  let annotations ← Json.optional ms "annotations" Json.texts?
  let creationTimestamp ← Json.optional ms "creationTimestamp" Json.timestamp?
  let graceSeconds ← Json.optional ms "deletionGracePeriodSeconds" Json.int64?
  let deletionTimestamp ← Json.optional ms "deletionTimestamp" Json.timestamp?
  let finalizers ← Json.optional ms "finalizers" (Json.listOf? Json.text?)
  let generateName ← Json.optional ms "generateName" Json.text?
  let generation ← Json.optional ms "generation" Json.int64?
  let labels ← Json.optional ms "labels" Json.texts?
  let managed ← Json.optional ms "managedFields" (Json.listOf? Management.ofJson?)
  let name ← Json.optional ms "name" Json.text?
  let ns ← Json.optional ms "namespace" Json.text?
  let owners ← Json.optional ms "ownerReferences" (Json.listOf? OwnerReference.ofJson?)
  let resourceVersion ← Json.optional ms "resourceVersion" Json.text?
  let selfLink ← Json.optional ms "selfLink" Json.text?
  let uid ← Json.optional ms "uid" Json.text?
  pure {
    name, generateName, ns, uid, generation, resourceVersion, labels, annotations, finalizers,
    owners, deletionTimestamp, creationTimestamp, graceSeconds, managed, selfLink }

/-- What a text of metadata has. -/
def shape : Shape := .record .lenient false [
  .optional "annotations" .texts, .optional "creationTimestamp" .timestamp,
  .optional "deletionGracePeriodSeconds" .int64, .optional "deletionTimestamp" .timestamp,
  .optional "finalizers" (.list .anyText), .optional "generateName" .anyText,
  .optional "generation" .int64, .optional "labels" .texts,
  .optional "managedFields" (.list Management.shape), .optional "name" .anyText,
  .optional "namespace" .anyText, .optional "ownerReferences" (.list OwnerReference.shape),
  .optional "resourceVersion" .anyText, .optional "selfLink" .anyText, .optional "uid" .anyText]

end Metadata

end Converge
