/-
  Converge.Store.Call — the calls a pass may make to the object store.

  Every call is one request and one answer; nothing retries.
-/
import Converge.Object.Basic
import Converge.Store.Error

namespace Converge

/-- A call to the object store. -/
inductive StoreCall where
  /-- Fetch an object; a missing one is no fault. -/
  | get (key : Key)
  | create (key : Key) (object : Object)
  /-- Replace an object.  It carries the resource version it was read at, so that
      a write in between is a conflict. -/
  | update (key : Key) (object : Object)
  /-- Replace the status of an object, with the same check. -/
  | updateStatus (key : Key) (object : Object)
  /-- The objects of a kind and namespace whose labels a selector accepts. -/
  | list (kind : Kind) (ns selector : String)
  /-- Delete an object; a missing one is no fault. -/
  | delete (key : Key)
deriving DecidableEq, Inhabited

namespace StoreCall

/-- What a call answers when it succeeds. -/
abbrev Reply : StoreCall → Type
  | get _ => Option Object
  | create _ _ => Object
  | update _ _ => Object
  | updateStatus _ _ => Object
  | list _ _ _ => List Object
  | delete _ => Unit

/-- The key a call is about; a list is about its kind, namespace and selector. -/
def key : StoreCall → Key
  | get key => key
  | create key _ => key
  | update key _ => key
  | updateStatus key _ => key
  | list kind ns selector => ⟨kind, ns, selector⟩
  | delete key => key

end StoreCall

end Converge
