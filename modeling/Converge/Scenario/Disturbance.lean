/-
  Converge.Scenario.Disturbance — faults and foreign writes at chosen store calls.

  A disturbance waits for the n-th call that it matches and strikes once, before
  the call reaches the store or after it came back without a fault.
-/
import Converge.Store.Memory

namespace Converge

/-- The kinds of store call. -/
inductive CallKind where
  | get
  | create
  | update
  | updateStatus
  | list
  | delete
deriving DecidableEq, Repr, Inhabited

/-- The kind of a call. -/
def StoreCall.callKind : StoreCall → CallKind
  | get _ => .get
  | create _ _ => .create
  | update _ _ => .update
  | updateStatus _ _ => .updateStatus
  | list _ _ _ => .list
  | delete _ => .delete

/-- What a disturbance does. -/
inductive Strike where
  /-- The call answers a conflict. -/
  | conflict
  /-- The call answers that the object was not found. -/
  | notFound
  /-- The call answers another fault. -/
  | api (detail : String)
  /-- The controller begins to shut down. -/
  | cancel
  /-- Another actor annotates an object, by default that of the call. -/
  | touch (key : Option Key)
  /-- Another actor deletes an object, by default that of the call. -/
  | remove (key : Option Key)
deriving DecidableEq, Repr, Inhabited

/-- A strike, and the call it waits for. -/
structure Disturbance where
  call : CallKind
  /-- Only calls about this key count. -/
  key : Option Key := none
  /-- Only calls about this kind count. -/
  kind : Option Kind := none
  nth : Nat
  after : Bool := false
  strike : Strike
  /-- The matching calls so far. -/
  seen : Nat := 0
deriving DecidableEq, Repr, Inhabited

/-- What disturbances work on: the store and whether the controller shuts down. -/
structure Shaken where
  store : Store
  cancelled : Bool
deriving DecidableEq, Inhabited

namespace Disturbance

/-- Whether a call counts. -/
def counts (d : Disturbance) (c : StoreCall) : Bool :=
  d.call == c.callKind && d.key.all (· == c.key) && d.kind.all (· == c.key.kind)

/-- The annotation of a touched object. -/
def touched (o : Object) : Object :=
  { o with metadata := { o.metadata with
      annotations := some (Table.insert (o.metadata.annotations.getD []) "touched" "yes") } }

/-- The fault a strike answers with, and what it leaves behind. -/
def act (s : Strike) (key : Key) (w : Shaken) : Option StoreError × Shaken :=
  match s with
  | .conflict => (some (.conflict key), w)
  | .notFound => (some (.notFound key), w)
  | .api detail => (some (.api key detail), w)
  | .cancel => (none, { w with cancelled := true })
  | .touch target => (none, { w with store := w.store.modify (target.getD key) touched })
  | .remove target => (none, { w with store := (w.store.perform (.delete (target.getD key))).2 })

/-- Let disturbances of one phase meet a call, in order; a fault ends the call
    before the later ones see it. -/
def meet (after : Bool) (c : StoreCall) :
    List Disturbance → Shaken → Option StoreError × List Disturbance × Shaken
  | [], w => (none, [], w)
  | d :: rest, w =>
    if d.after == after && d.counts c then
      let d := { d with seen := d.seen + 1 }
      -- each one strikes once, and goes on counting without effect
      if d.seen = d.nth then
        match act d.strike c.key w with
        | (some fault, w) => (some fault, d :: rest, w)
        | (none, w) =>
          let (fault, rest, w) := meet after c rest w
          (fault, d :: rest, w)
      else
        let (fault, rest, w) := meet after c rest w
        (fault, d :: rest, w)
    else
      let (fault, rest, w) := meet after c rest w
      (fault, d :: rest, w)

/-- A call under disturbances. -/
def perform (ds : List Disturbance) (c : StoreCall) (w : Shaken) :
    Except StoreError c.Reply × List Disturbance × Shaken :=
  match meet false c ds w with
  | (some fault, ds, w) => (.error fault, ds, w)
  | (none, ds, w) =>
    let (reply, store) := w.store.perform c
    let w := { w with store }
    match reply with
    -- nothing comes after a call that failed by itself
    | .error fault => (.error fault, ds, w)
    | .ok value => match meet true c ds w with
      | (some fault, ds, w) => (.error fault, ds, w)
      | (none, ds, w) => (.ok value, ds, w)

end Disturbance

end Converge
