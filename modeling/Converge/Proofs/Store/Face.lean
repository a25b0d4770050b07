/-
  Converge.Proofs.Store.Face — what a store holds, apart from resource versions.

  Every write takes a new version, so that two ways to the same contents differ in versions.
  The face of an object is the object without its version.

  Main statements: the face of a store after each write.
-/
import Converge.Store.Memory
import Converge.Proofs.Json.Along

namespace Converge

/-! ## §1. Faces -/

/-- The object without its resource version. -/
def Object.face (o : Object) : Object :=
  { o with metadata := { o.metadata with resourceVersion := none } }

@[simp] theorem Object.face_data (o : Object) : o.face.data = o.data := rfl

/-- What is held under each key. -/
abbrev Faces := Key → Option Object

namespace Faces

/-- One key holds `o`, all else is as before. -/
def turn (F : Faces) (key : Key) (o : Object) : Faces := fun k => if key = k then some o else F k

@[simp] theorem turn_self (F : Faces) (key : Key) (o : Object) : F.turn key o key = some o :=
  if_pos rfl

theorem turn_of_ne (F : Faces) {key k : Key} (h : key ≠ k) (o : Object) : F.turn key o k = F k :=
  if_neg h

theorem turn_of_held {F : Faces} {key : Key} {o : Object} (h : F key = some o) :
    F.turn key o = F := by
  funext k
  by_cases hk : key = k
  · subst hk
    rw [turn_self, h]
  · exact turn_of_ne F hk o

theorem turn_turn (F : Faces) (key : Key) (o p : Object) :
    (F.turn key o).turn key p = F.turn key p := by
  funext k
  by_cases hk : key = k
  · subst hk
    rw [turn_self, turn_self]
  · rw [turn_of_ne _ hk, turn_of_ne _ hk, turn_of_ne _ hk]

theorem turn_comm (F : Faces) {key l : Key} (h : key ≠ l) (o p : Object) :
    (F.turn key o).turn l p = (F.turn l p).turn key o := by
  funext k
  by_cases hl : l = k
  · subst hl
    rw [turn_self, turn_of_ne _ h, turn_self]
  · rw [turn_of_ne _ hl]
    by_cases hk : key = k
    · subst hk
      rw [turn_self, turn_self]
    · rw [turn_of_ne _ hk, turn_of_ne _ hk, turn_of_ne _ hl]

end Faces

namespace Store

/-- What the store holds under each key, without versions. -/
def face (s : Store) : Faces := fun key => (Table.get? s.objects key).map Object.face

/-- A write changes one face. -/
theorem face_put (s : Store) (key : Key) (o : Object) :
    (s.put key o).face = s.face.turn key o.face := by
  funext k
  show (Table.get? (Table.insert s.objects key (s.stamped o)) k).map Object.face = _
  rw [Table.get?_insert]
  by_cases h : key = k
  · subst h
    rw [if_pos rfl, Faces.turn_self]
    rfl
  · rw [if_neg h, Faces.turn_of_ne _ h]
    rfl

theorem exists_of_face {s : Store} {key : Key} {o : Object} (h : s.face key = some o) :
    ∃ p, Table.get? s.objects key = some p ∧ p.face = o :=
  Option.map_eq_some_iff.mp h

theorem exists_face {s : Store} {key : Key} (here : (Table.get? s.objects key).isSome = true) :
    ∃ o, s.face key = some o := by
  obtain ⟨o, ho⟩ := Option.isSome_iff_exists.mp here
  exact ⟨o.face, congrArg (Option.map Object.face) ho⟩

/-! ## §2. Writes that carry the stored version -/

/-- An object whose status is that of the stored one is stored as it is. -/
theorem withStatusOf_of_same {stored o : Object}
    (same : o.data.get? "status" = stored.data.get? "status") : withStatusOf stored o = o := by
  unfold withStatusOf
  cases h : stored.data.get? "status" with
  | none =>
    show { o with data := o.data.dropMember "status" } = o
    rw [Json.dropMember_of_get?_none (same.trans h)]
  | some v =>
    show { o with data := o.data.setMember "status" v } = o
    rw [Json.setMember_of_get? (same.trans h)]

theorem current_of_same {stored o : Object}
    (same : o.metadata.resourceVersion = stored.metadata.resourceVersion) :
    current stored o = true := by
  unfold current
  rw [same]
  exact beq_self_eq_true _

/-- A write that puts something else in the place of the stored object, if it carries the stored
    version: an update of either sort is one. -/
def revise (s : Store) (op : WriteOp) (key : Key) (o : Object) (next : Object → Object) :
    Except StoreError Object × Store :=
  match Table.get? s.objects key with
  | none => (.error (.notFound key), s)
  | some stored =>
    if current stored o then (.ok (s.stamped (next stored)), (s.put key (next stored)).log op key)
    else (.error (.conflict key), s)

section Current

variable {s : Store} {key : Key} {stored o : Object}

theorem perform_update_eq (s : Store) (key : Key) (o : Object) :
    s.perform (.update key o) = s.revise .update key o (withStatusOf · o) := by
  cases here : Table.get? s.objects key <;> simp only [perform, revise, here]

theorem perform_updateStatus_eq (s : Store) (key : Key) (o : Object) :
    s.perform (.updateStatus key o) = s.revise .updateStatus key o (withNewStatus · o) := by
  cases here : Table.get? s.objects key <;> simp only [perform, revise, here]

/-- A write that carries the stored version is taken. -/
theorem revise_current (op : WriteOp) (next : Object → Object)
    (here : Table.get? s.objects key = some stored)
    (version : o.metadata.resourceVersion = stored.metadata.resourceVersion) :
    s.revise op key o next
      = (.ok (s.stamped (next stored)), (s.put key (next stored)).log op key) := by
  simp only [revise, here, current_of_same version, if_true]

/-- An update that carries the stored version and status. -/
theorem perform_update (here : Table.get? s.objects key = some stored)
    (version : o.metadata.resourceVersion = stored.metadata.resourceVersion)
    (status : o.data.get? "status" = stored.data.get? "status") :
    s.perform (.update key o) = (.ok (s.stamped o), (s.put key o).log .update key) := by
  rw [perform_update_eq, revise_current _ _ here version, withStatusOf_of_same status]

/-- A status update that carries the stored version. -/
theorem perform_updateStatus {status : Json} (here : Table.get? s.objects key = some stored) :
    s.perform (.updateStatus key { stored with data := stored.data.setMember "status" status })
      = (.ok (s.stamped { stored with data := stored.data.setMember "status" status }),
        (s.put key { stored with data := stored.data.setMember "status" status }).log
          .updateStatus key) := by
  have htaken := revise_current .updateStatus
    (withNewStatus · { stored with data := stored.data.setMember "status" status }) here
    (o := { stored with data := stored.data.setMember "status" status }) rfl
  have hnew : withNewStatus stored
      { stored with data := stored.data.setMember "status" status }
      = { stored with data := stored.data.setMember "status" status } := by
    unfold withNewStatus
    simp
  rw [hnew] at htaken
  exact (perform_updateStatus_eq _ _ _).trans htaken

end Current

/-- A creation where nothing is. -/
theorem perform_create {s : Store} {key : Key} (o : Object)
    (absent : Table.get? s.objects key = none) :
    s.perform (.create key o) = (.ok (s.stamped (withUid o (uidOf key))),
      (s.put key (withUid o (uidOf key))).log .create key) := by
  have hno : Table.has s.objects key = false := by
    unfold Table.has
    rw [absent]
    rfl
  simp only [perform, hno, Bool.false_eq_true, if_false]

end Store

end Converge
