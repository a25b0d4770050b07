/-
  Converge.Store.Memory — an object store in memory.

  One counter serves all objects: every write takes the next number for its
  object's resource version, so no version is ever used twice.  Updates carry the
  version they were read at and fail when it is no longer the stored one.  Reads
  are counted and writes are logged.
-/
import Converge.Selector
import Converge.Store.Call

namespace Converge

/-- The kinds of write that are logged. -/
inductive WriteOp where
  | create
  | update
  | updateStatus
  | delete
deriving DecidableEq, Repr, Inhabited

/-- The state of the store. -/
structure Store where
  objects : Table Key Object := []
  version : Nat := 0
  reads : Nat := 0
  /-- The latest write comes last. -/
  writes : List (WriteOp × Key) := []
deriving DecidableEq, Inhabited

namespace Store

/-! ## §1. Writing with a new version -/

/-- The object with the next resource version. -/
def stamped (s : Store) (o : Object) : Object :=
  { o with metadata := { o.metadata with resourceVersion := some (toString (s.version + 1)) } }

/-- Keep an object under the next resource version. -/
def put (s : Store) (key : Key) (o : Object) : Store :=
  { s with objects := Table.insert s.objects key (s.stamped o), version := s.version + 1 }

/-- Log a write. -/
def log (s : Store) (op : WriteOp) (key : Key) : Store :=
  { s with writes := s.writes ++ [(op, key)] }

/-- Count a read. -/
def countRead (s : Store) : Store := { s with reads := s.reads + 1 }

/-- The uid an object gets when it is created. -/
def uidOf (key : Key) : String := "uid-" ++ key.name

/-- An object with a uid. -/
def withUid (o : Object) (uid : String) : Object :=
  { o with metadata := { o.metadata with uid := some uid } }

/-- The object as an update stores it: the status is that of the stored object. -/
def withStatusOf (stored o : Object) : Object :=
  { o with data := match stored.data.get? "status" with
      | some v => o.data.setMember "status" v
      | none => o.data.dropMember "status" }

/-- The object as a status update stores it: all but the status is that of the
    stored object, and a missing status is null. -/
def withNewStatus (stored o : Object) : Object :=
  { stored with data := stored.data.setMember "status" ((o.data.get? "status").getD .null) }

/-! ## §2. Other actors -/

/-- Place an object without logging a write; a uid is given when it has none. -/
def seed (s : Store) (key : Key) (o : Object) : Store :=
  let o := match o.metadata.uid with
    | some _ => o
    | none => withUid o (uidOf key)
  s.put key o

/-- Change a stored object as another actor would: a new version, no log entry. -/
def modify (s : Store) (key : Key) (f : Object → Object) : Store :=
  match Table.get? s.objects key with
  | some o => s.put key (f o)
  | none => s

/-- Let a stored deployment report its ready replicas. -/
def setReady (s : Store) (key : Key) (ready : Int32) : Store :=
  let status : Json := .obj [("readyReplicas", .ofInt32 ready), ("replicas", .ofInt32 ready)]
  s.modify key fun o => { o with data := o.data.setMember "status" status }

/-- The replicas a stored object asks for, one when it does not say. -/
def desiredReplicas (o : Object) : Int32 :=
  (((o.data.follow ["spec", "replicas"]).int64?).getD 1).toInt32

/-- Let every stored deployment report that all its replicas are ready. -/
def makeAllReady (s : Store) : Store :=
  s.objects.foldl
    (fun acc e => if e.1.kind = .deployment then acc.setReady e.1 (desiredReplicas e.2) else acc)
    s

/-! ## §3. Calls -/

/-- Whether an object carries the version of the stored one. -/
def current (stored o : Object) : Bool :=
  stored.metadata.resourceVersion == o.metadata.resourceVersion

/-- The answer to a call and the store after it. -/
def perform (s : Store) : (c : StoreCall) → Except StoreError c.Reply × Store
  | .get key => (.ok (Table.get? s.objects key), s.countRead)
  | .create key o =>
    if Table.has s.objects key then (.error (.conflict key), s)
    else
      let o := withUid o (uidOf key)
      (.ok (s.stamped o), (s.put key o).log .create key)
  | .update key o => match Table.get? s.objects key with
    | none => (.error (.notFound key), s)
    | some stored =>
      if current stored o then
        let o := withStatusOf stored o
        (.ok (s.stamped o), (s.put key o).log .update key)
      else (.error (.conflict key), s)
  | .updateStatus key o => match Table.get? s.objects key with
    | none => (.error (.notFound key), s)
    | some stored =>
      if current stored o then
        let o := withNewStatus stored o
        (.ok (s.stamped o), (s.put key o).log .updateStatus key)
      else (.error (.conflict key), s)
  | .list kind ns selector =>
    (.ok ((s.objects.filter fun e => e.1.kind = kind && e.1.ns = ns
        && Selector.accepts selector (e.2.metadata.labels.getD [])).map (·.2)), s.countRead)
  | .delete key =>
    -- deleting what is gone is no fault
    if Table.has s.objects key then
      (.ok (), ({ s with objects := Table.erase s.objects key } : Store).log .delete key)
    else (.ok (), s)

end Store

end Converge
