/-
  Converge.Proofs.Store.Versions — versions tell objects apart.

  One counter serves all objects, and every write takes the next number.  So whatever is written
  in between, by whomever, an object that carries a version read earlier under the same key is the
  object that was read, even where the key was deleted and created again.

  Main statements:
    * `Store.Writes.onward` — after any writes, what a store holds it held before, or carries a
      later version.
    * `Store.Writes.same` — an object that carries an earlier version is the earlier object.
-/
import Converge.Proofs.Store.Answers
import Mathlib

namespace Converge.Store

/-! ## §1. What may be done to a store -/

/-- One thing that is done to a store, by a pass or by another actor. -/
inductive Write : Store → Store → Prop
  | seed (s : Store) (key : Key) (o : Object) : Write s (s.seed key o)
  | modify (s : Store) (key : Key) (f : Object → Object) : Write s (s.modify key f)
  | perform (s : Store) (c : StoreCall) : Write s (s.perform c).2
  /-- The log is cleared and reads are counted anew. -/
  | clear (s : Store) : Write s { s with reads := 0, writes := [] }

/-- Any number of things done to a store. -/
def Writes : Store → Store → Prop := Relation.ReflTransGen Write

theorem Writes.refl (s : Store) : Writes s s := Relation.ReflTransGen.refl

theorem Writes.trans {s t u : Store} (h : Writes s t) (g : Writes t u) : Writes s u :=
  Relation.ReflTransGen.trans h g

theorem Writes.perform (s : Store) (c : StoreCall) : Writes s (s.perform c).2 :=
  Relation.ReflTransGen.single (.perform s c)

/-! ## §2. Each write takes the next version -/

/-- What the later store holds it held before, or carries a version that was not yet in use. -/
structure Onward (s t : Store) : Prop where
  version : s.version ≤ t.version
  held : ∀ key o, Table.get? t.objects key = some o → Table.get? s.objects key = some o ∨
    ∃ n, s.version < n ∧ n ≤ t.version ∧ o.metadata.resourceVersion = some (toString n)

theorem Onward.of_objects {s t : Store} (version : s.version ≤ t.version)
    (held : ∀ key o, Table.get? t.objects key = some o → Table.get? s.objects key = some o) :
    Onward s t :=
  ⟨version, fun key o h => .inl (held key o h)⟩

theorem Onward.refl (s : Store) : Onward s s := .of_objects (Nat.le_refl _) fun _ _ h => h

theorem Onward.trans {s t u : Store} (h : Onward s t) (g : Onward t u) : Onward s u where
  version := Nat.le_trans h.version g.version
  held := by
    intro key o ho
    -- it has been there all along, or got its version on the first way or on the second
    rcases g.held key o ho with ht | ⟨n, hlow, hhigh, hn⟩
    · rcases h.held key o ht with hs | ⟨n, hlow, hhigh, hn⟩
      · exact .inl hs
      · exact .inr ⟨n, hlow, Nat.le_trans hhigh g.version, hn⟩
    · exact .inr ⟨n, Nat.lt_of_le_of_lt h.version hlow, hhigh, hn⟩

theorem onward_put (s : Store) (key : Key) (o : Object) : Onward s (s.put key o) where
  version := Nat.le_succ _
  held := by
    intro k p hp
    have hget : Table.get? (Table.insert s.objects key (s.stamped o)) k = some p := hp
    rcases Table.get?_of_insert hget with ⟨_, rfl⟩ | ⟨_, hbefore⟩
    · -- what is written takes the next version
      exact .inr ⟨s.version + 1, Nat.lt_succ_self _, Nat.le_refl _, rfl⟩
    · exact .inl hbefore

theorem onward_log (s : Store) (op : WriteOp) (key : Key) : Onward s (s.log op key) :=
  .of_objects (Nat.le_refl _) fun _ _ h => h

theorem onward_perform (s : Store) (c : StoreCall) : Onward s (s.perform c).2 := by
  have hwrite : ∀ key o op, Onward s ((s.put key o).log op key) := fun key o op =>
    (s.onward_put key o).trans (onward_log _ op key)
  have hrefused : ∀ {f : Except StoreError c.Reply}, s.perform c = (f, s) →
      Onward s (s.perform c).2 := by
    intro f h
    rw [h]
    exact .refl s
  cases c with
  | get key | list kind ns selector => exact .of_objects (Nat.le_refl _) fun _ _ h => h
  | create key o =>
    rcases s.perform_create_cases key o with ⟨_, hok⟩ | herror
    · rw [hok]
      exact hwrite _ _ _
    · exact hrefused herror
  | update key o =>
    rcases s.perform_update_cases key o with ⟨_, _, _, hok⟩ | ⟨_, _, herror⟩
    · rw [hok]
      exact hwrite _ _ _
    · exact hrefused herror
  | updateStatus key o =>
    rcases s.perform_updateStatus_cases key o with ⟨_, _, _, hok⟩ | ⟨_, _, herror⟩
    · rw [hok]
      exact hwrite _ _ _
    · exact hrefused herror
  | delete key =>
    rcases s.perform_delete_cases key with hok | ⟨_, hok⟩
    · rw [hok]
      -- what is left was there before
      exact .of_objects (Nat.le_refl _) fun _ _ ho => (Table.get?_of_erase ho).2
    · exact hrefused hok

theorem Write.onward {s t : Store} (h : Write s t) : Onward s t := by
  cases h with
  | seed key o => exact onward_put s key _
  | modify key f =>
    unfold Store.modify
    split
    · exact onward_put s key _
    · exact .refl s
  | perform c => exact onward_perform s c
  | clear => exact .of_objects (Nat.le_refl _) fun _ _ h => h

theorem Writes.onward {s t : Store} (h : Writes s t) : Onward s t := by
  induction h with
  | refl => exact .refl s
  | tail _ step ih => exact ih.trans step.onward

/-! ## §3. No version is used twice -/

/-- A store that was written from the start: every version in it was given out by its counter. -/
theorem Writes.versions {s : Store} (made : Writes {} s) {key : Key} {o : Object}
    (here : Table.get? s.objects key = some o) :
    ∃ n, n ≤ s.version ∧ o.metadata.resourceVersion = some (toString n) := by
  -- an empty store holds nothing, so that the version was given out on the way
  rcases made.onward.held key o here with h | ⟨n, _, hhigh, hn⟩
  · exact absurd h nofun
  · exact ⟨n, hhigh, hn⟩

/-- An object that carries the version of one that was stored earlier under its key is that one. -/
theorem Writes.same {s t : Store} (made : Writes {} s) (h : Writes s t) {key : Key}
    {o p : Object} (earlier : Table.get? s.objects key = some o)
    (later : Table.get? t.objects key = some p)
    (version : p.metadata.resourceVersion = o.metadata.resourceVersion) : p = o := by
  rcases h.onward.held key p later with hsame | ⟨n, hlow, _, hn⟩
  · rw [earlier] at hsame
    injection hsame with hsame
    exact hsame.symm
  · -- the version of the earlier object was given out before that of the later one
    obtain ⟨m, hm, hversion⟩ := made.versions earlier
    rw [hversion, hn] at version
    have hnm : n = m := Nat.repr_inj.mp (Option.some.inj version)
    omega

end Converge.Store
