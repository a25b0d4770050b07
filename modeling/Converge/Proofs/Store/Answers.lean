/-
  Converge.Proofs.Store.Answers — what an answer of the store tells of it.

  A write is taken, or is refused for a reason and changes nothing.  So from the answer to a call
  it can be told what the store held and what it holds afterwards.

  Main statements:
    * `perform_create_cases`, `revise_cases`, `perform_delete_cases` — all that a write can come
      to; `perform_update_cases` and `perform_updateStatus_cases` are the two sorts of revision.
    * `perform_error` — a call that is refused changes nothing.
    * `perform_create_ok`, `perform_update_ok`, `perform_updateStatus_ok`, `perform_delete` — what
      the calls that write leave.
    * `once_perform` — a call keeps each key once.
-/
import Converge.Proofs.Store.Face
import Converge.Proofs.Table.Writes

namespace Converge.Store

variable {s t : Store} {key : Key} {o p : Object}

/-! ## §1. Calls that may be refused -/

/-- A creation finds nothing, or is refused. -/
theorem perform_create_cases (s : Store) (key : Key) (o : Object) :
    (Table.get? s.objects key = none ∧ s.perform (.create key o)
        = (.ok (s.stamped (withUid o (uidOf key))),
          (s.put key (withUid o (uidOf key))).log .create key)) ∨
      s.perform (.create key o) = (.error (.conflict key), s) := by
  cases hg : Table.get? s.objects key with
  | none => exact .inl ⟨rfl, perform_create o hg⟩
  | some stored =>
    have hhas : Table.has s.objects key = true := Table.has_iff.mpr ⟨stored, hg⟩
    exact .inr (by simp only [perform, hhas, if_true])

/-- The fault of a write that is not taken. -/
def Declines (key : Key) (f : StoreError) : Prop := f = .conflict key ∨ f = .notFound key

/-- A revision finds an object with its version, or is refused. -/
theorem revise_cases (s : Store) (op : WriteOp) (key : Key) (o : Object)
    (next : Object → Object) :
    (∃ stored, Table.get? s.objects key = some stored ∧
        stored.metadata.resourceVersion = o.metadata.resourceVersion ∧
        s.revise op key o next
          = (.ok (s.stamped (next stored)), (s.put key (next stored)).log op key)) ∨
      ∃ f, Declines key f ∧ s.revise op key o next = (.error f, s) := by
  cases hg : Table.get? s.objects key with
  | none => exact .inr ⟨_, .inr rfl, by simp only [revise, hg]⟩
  | some stored =>
    -- the store asks whether the version is the one it holds
    by_cases hcurrent : current stored o = true
    · have hsame : stored.metadata.resourceVersion = o.metadata.resourceVersion :=
        eq_of_beq hcurrent
      exact .inl ⟨stored, rfl, hsame, revise_current op next hg hsame.symm⟩
    · exact .inr ⟨_, .inl rfl, by simp only [revise, hg, hcurrent, Bool.false_eq_true, if_false]⟩

theorem perform_update_cases (s : Store) (key : Key) (o : Object) :
    (∃ stored, Table.get? s.objects key = some stored ∧
        stored.metadata.resourceVersion = o.metadata.resourceVersion ∧
        s.perform (.update key o) = (.ok (s.stamped (withStatusOf stored o)),
          (s.put key (withStatusOf stored o)).log .update key)) ∨
      ∃ f, Declines key f ∧ s.perform (.update key o) = (.error f, s) :=
  s.perform_update_eq key o ▸ s.revise_cases .update key o _

theorem perform_updateStatus_cases (s : Store) (key : Key) (o : Object) :
    (∃ stored, Table.get? s.objects key = some stored ∧
        stored.metadata.resourceVersion = o.metadata.resourceVersion ∧
        s.perform (.updateStatus key o) = (.ok (s.stamped (withNewStatus stored o)),
          (s.put key (withNewStatus stored o)).log .updateStatus key)) ∨
      ∃ f, Declines key f ∧ s.perform (.updateStatus key o) = (.error f, s) :=
  s.perform_updateStatus_eq key o ▸ s.revise_cases .updateStatus key o _

/-- An update of either sort. -/
theorem perform_revise_cases (s : Store) {c : StoreCall}
    (revise : c = .update key o ∨ c = .updateStatus key o) :
    (∃ stored, Table.get? s.objects key = some stored ∧
        stored.metadata.resourceVersion = o.metadata.resourceVersion ∧
        ∃ a t, s.perform c = (.ok a, t)) ∨
      ∃ f, Declines key f ∧ s.perform c = (.error f, s) := by
  rcases revise with rfl | rfl
  · rcases s.perform_update_cases key o with ⟨stored, hstored, hversion, hok⟩ | hrefused
    · exact .inl ⟨stored, hstored, hversion, _, _, hok⟩
    · exact .inr hrefused
  · rcases s.perform_updateStatus_cases key o with ⟨stored, hstored, hversion, hok⟩ | hrefused
    · exact .inl ⟨stored, hstored, hversion, _, _, hok⟩
    · exact .inr hrefused

/-- A deletion is never refused; what is gone stays gone. -/
theorem perform_delete_cases (s : Store) (key : Key) :
    s.perform (.delete key)
        = (.ok (), ({ s with objects := Table.erase s.objects key } : Store).log .delete key) ∨
      Table.get? s.objects key = none ∧ s.perform (.delete key) = (.ok (), s) := by
  cases hg : Table.get? s.objects key with
  | none =>
    have hno : Table.has s.objects key = false := by
      unfold Table.has
      rw [hg]
      rfl
    exact .inr ⟨rfl, by simp only [perform, hno, Bool.false_eq_true, if_false]⟩
  | some stored =>
    have hhas : Table.has s.objects key = true := Table.has_iff.mpr ⟨stored, hg⟩
    exact .inl (by simp only [perform, hhas, if_true])

/-! ## §2. Calls that are answered -/

/-- A call that is refused changes nothing. -/
theorem perform_error {c : StoreCall} {e : StoreError} (h : s.perform c = (.error e, t)) :
    t = s := by
  have hrefused : ∀ {f}, s.perform c = (.error f, s) → t = s := fun herror =>
    congrArg Prod.snd (h.symm.trans herror)
  have htaken : ∀ {a u}, s.perform c = (.ok a, u) → t = s := fun hok =>
    absurd (congrArg Prod.fst (h.symm.trans hok)) nofun
  have hrevised : ∀ {key o}, c = .update key o ∨ c = .updateStatus key o → t = s := by
    intro key o revise
    rcases s.perform_revise_cases revise with ⟨_, _, _, _, _, hok⟩ | ⟨_, _, herror⟩
    · exact htaken hok
    · exact hrefused herror
  cases c with
  | get key | list kind ns selector => exact htaken rfl
  | create key o =>
    rcases s.perform_create_cases key o with ⟨_, hok⟩ | herror
    · exact htaken hok
    · exact hrefused herror
  | update key o => exact hrevised (.inl rfl)
  | updateStatus key o => exact hrevised (.inr rfl)
  | delete key =>
    rcases s.perform_delete_cases key with hok | ⟨_, hok⟩
    · exact htaken hok
    · exact htaken hok

theorem perform_create_ok (h : s.perform (.create key o) = (.ok p, t)) :
    Table.get? s.objects key = none ∧
      t.objects = Table.insert s.objects key (s.stamped (withUid o (uidOf key))) := by
  rcases s.perform_create_cases key o with ⟨hnone, hok⟩ | herror
  · exact ⟨hnone, congrArg (fun r => r.2.objects) (h.symm.trans hok)⟩
  · exact absurd (congrArg Prod.fst (h.symm.trans herror)) nofun

/-- A revision that is taken found an object with its version. -/
theorem revise_ok {op : WriteOp} {next : Object → Object}
    (h : s.revise op key o next = (.ok p, t)) :
    ∃ stored, Table.get? s.objects key = some stored ∧
      stored.metadata.resourceVersion = o.metadata.resourceVersion ∧
      t.objects = Table.insert s.objects key (s.stamped (next stored)) := by
  rcases s.revise_cases op key o next with ⟨stored, hstored, hversion, hok⟩ | ⟨_, _, herror⟩
  · exact ⟨stored, hstored, hversion, congrArg (fun r => r.2.objects) (h.symm.trans hok)⟩
  · exact absurd (congrArg Prod.fst (h.symm.trans herror)) nofun

theorem perform_update_ok (h : s.perform (.update key o) = (.ok p, t)) :
    ∃ stored, Table.get? s.objects key = some stored ∧
      stored.metadata.resourceVersion = o.metadata.resourceVersion ∧
      t.objects = Table.insert s.objects key (s.stamped (withStatusOf stored o)) :=
  revise_ok ((s.perform_update_eq key o).symm.trans h)

theorem perform_updateStatus_ok (h : s.perform (.updateStatus key o) = (.ok p, t)) :
    ∃ stored, Table.get? s.objects key = some stored ∧
      stored.metadata.resourceVersion = o.metadata.resourceVersion ∧
      t.objects = Table.insert s.objects key (s.stamped (withNewStatus stored o)) :=
  revise_ok ((s.perform_updateStatus_eq key o).symm.trans h)

theorem perform_delete (s : Store) (key : Key) :
    (s.perform (.delete key)).1 = .ok () ∧
      (s.perform (.delete key)).2.objects = Table.erase s.objects key := by
  rcases s.perform_delete_cases key with hok | ⟨hnone, hok⟩
  · rw [hok]
    exact ⟨rfl, rfl⟩
  · rw [hok]
    exact ⟨rfl, (Table.erase_of_get?_none hnone).symm⟩

/-! ## §3. Keys -/

/-- No call keeps two objects under one key. -/
theorem once_perform (once : (Table.keys s.objects).Nodup) (c : StoreCall) :
    (Table.keys (s.perform c).2.objects).Nodup := by
  generalize hreply : s.perform c = reply
  obtain ⟨reply, t⟩ := reply
  cases reply with
  | error e =>
    rw [perform_error hreply]
    exact once
  | ok a =>
    cases c with
    | get key | list kind ns selector =>
      rw [← congrArg Prod.snd hreply]
      exact once
    | create key o =>
      rw [(perform_create_ok hreply).2]
      exact Table.nodup_insert once key _
    | update key o =>
      obtain ⟨_, _, _, written⟩ := perform_update_ok hreply
      rw [written]
      exact Table.nodup_insert once key _
    | updateStatus key o =>
      obtain ⟨_, _, _, written⟩ := perform_updateStatus_ok hreply
      rw [written]
      exact Table.nodup_insert once key _
    | delete key =>
      rw [← congrArg Prod.snd hreply, (perform_delete s key).2]
      exact Table.nodup_erase once key

end Converge.Store
