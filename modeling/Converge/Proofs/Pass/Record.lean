/-
  Converge.Proofs.Pass.Record — the record on a root accounts for what is linked to it.

  An object that is linked to a root outside its namespace is accounted for as long as the root
  holds the finalizer and has the namespace on record.  Most writes keep it so: those that leave
  finalizer and record alone and link nothing.

  Main statements:
    * `Store.Spares.accounts` — what leaves finalizer, record and links alone keeps the account.
    * `Store.spares_perform` — reads, status updates and deletions do.
    * `Store.Accounts.put_child`, `Store.Accounts.put_held`, `Store.Accounts.put_released` — the
      three writes that do not.
-/
import Converge.Proofs.Pass.Held
import Converge.Proofs.Selector
import Converge.Proofs.Store.Answers

namespace Converge

/-! ## §1. Links -/

namespace Root

/-- The object carries the labels that link it to the root. -/
def Links (root : Root) (o : Object) : Prop :=
  ∀ e ∈ root.linkLabels, Table.get? (o.metadata.labels.getD []) e.1 = some e.2

instance (root : Root) (o : Object) : Decidable (root.Links o) :=
  inferInstanceAs (Decidable (∀ e ∈ root.linkLabels, _))

theorem linkLabels_eq (root : Root) :
    root.linkLabels = [(root.kind.linkKeys.1, root.name), (root.kind.linkKeys.2, root.ns)] := by
  have hne : ∀ k : RootKind, k.linkKeys.1 ≠ k.linkKeys.2 := by
    intro k
    cases k <;> decide
  have hlt : ∀ k : RootKind, ¬ k.linkKeys.2 < k.linkKeys.1 := by
    intro k
    cases k <;> decide
  simp [linkLabels, Table.ofEntries, Table.insertAll, Table.insert, Table.has, Table.place,
    Table.get?_cons, hne, hlt]

/-- The keys of link labels come back from a selector. -/
theorem linkKeys_writable (k : RootKind) : ∀ key ∈ [k.linkKeys.1, k.linkKeys.2],
    '=' ∉ key.toList ∧ ',' ∉ key.toList := by
  cases k <;> decide

/-- A root whose name and namespace have no comma selects exactly what it links. -/
theorem accepts_iff_links {root : Root} (name : ',' ∉ root.name.toList)
    (ns : ',' ∉ root.ns.toList) {o : Object} :
    Selector.accepts root.linkSelector (o.metadata.labels.getD []) = true ↔ root.Links o := by
  refine Selector.accepts_print ?_ _
  rw [linkLabels_eq]
  have hkeys := linkKeys_writable root.kind
  simp only [List.forall_mem_cons] at hkeys ⊢
  obtain ⟨hname, hns, _⟩ := hkeys
  exact ⟨⟨hname.1, hname.2, name⟩, ⟨hns.1, hns.2, ns⟩, fun _ h => absurd h List.not_mem_nil⟩

end Root

/-! ## §2. Finalizer and record -/

namespace Finalizer

/-- The second metadata has the finalizers and the record of the first. -/
structure SameMarks (m n : Metadata) : Prop where
  finalizers : n.finalizers = m.finalizers
  record : Table.get? (n.annotations.getD []) recordKey
    = Table.get? (m.annotations.getD []) recordKey

theorem SameMarks.refl (m : Metadata) : SameMarks m m := ⟨rfl, rfl⟩

theorem SameMarks.trans {m n l : Metadata} (h : SameMarks m n) (g : SameMarks n l) :
    SameMarks m l :=
  ⟨g.finalizers.trans h.finalizers, g.record.trans h.record⟩

theorem SameMarks.holds {m n : Metadata} (h : SameMarks m n) : holds n = holds m := by
  unfold Finalizer.holds
  rw [h.finalizers]

theorem SameMarks.recorded {m n : Metadata} (h : SameMarks m n) : recorded n = recorded m := by
  unfold Finalizer.recorded
  rw [h.record]

/-- Holding a root for plain namespaces keeps on record what was there. -/
theorem recorded_held {m : Metadata} {linked : Roster String} (plain : ∀ ns ∈ linked, Plain ns)
    {ns : String} (h : ns ∈ recorded m) : ns ∈ recorded (held m linked) := by
  rw [recorded_held_eq plain]
  exact (Roster.mem_union _ _ ns).mpr (.inl h)

theorem held_name (m : Metadata) (linked : Roster String) : (held m linked).name = m.name := by
  have hfinalized : (finalized m).name = m.name := by
    unfold finalized
    split <;> rfl
  rw [held_eq]
  split <;> exact hfinalized

end Finalizer

/-! ## §3. What a store holds of a root -/

namespace Store

/-- An object outside the namespace of the root is stored under the key and linked to the root. -/
structure HasLinked (root : Root) (s : Store) (key : Key) : Prop where
  foreign : key.ns ≠ root.ns
  stored : ∃ o, Table.get? s.objects key = some o ∧ root.Links o

/-- Nothing outside the namespace of the root is linked to it. -/
def Unlinked (root : Root) (s : Store) : Prop := ∀ key, ¬ s.HasLinked root key

/-- The root is stored and holds the finalizer. -/
def HoldsRoot (root : Root) (s : Store) : Prop :=
  ∃ o, Table.get? s.objects root.key = some o ∧ Finalizer.holds o.metadata = true

/-- The root is stored, holds the finalizer, and has the namespace on record. -/
def Records (root : Root) (s : Store) (ns : String) : Prop :=
  ∃ o, Table.get? s.objects root.key = some o ∧ Finalizer.holds o.metadata = true ∧
    ns ∈ Finalizer.recorded o.metadata

instance (root : Root) (s : Store) : Decidable (s.HoldsRoot root) :=
  inferInstanceAs (Decidable (∃ o ∈ Table.get? s.objects root.key, _))

instance (root : Root) (s : Store) (key : Key) : Decidable (s.HasLinked root key) :=
  decidable_of_iff (key.ns ≠ root.ns ∧ ∃ o ∈ Table.get? s.objects key, root.Links o)
    ⟨fun h => ⟨h.1, h.2⟩, fun h => ⟨h.1, h.2⟩⟩

/-- Every object carries the name of its key. -/
def Named (s : Store) : Prop :=
  ∀ key o, Table.get? s.objects key = some o → o.metadata.name = some key.name

/-- The root is stored, and what is linked to it outside its namespace is a child by its kind and
    in a namespace on record. -/
structure Accounts (root : Root) (s : Store) : Prop where
  stored : ∃ o, Table.get? s.objects root.key = some o
  named : s.Named
  kinds : ∀ key, s.HasLinked root key → key.kind ∈ Kind.children
  recorded : ∀ key, s.HasLinked root key → s.Records root key.ns

/-- Finalizers and record of the root are left alone. -/
def KeepsMarks (root : Root) (s t : Store) : Prop :=
  ∀ o, Table.get? s.objects root.key = some o → ∃ p, Table.get? t.objects root.key = some p ∧
    Finalizer.SameMarks o.metadata p.metadata

/-- Finalizers and record of the root are left alone, nothing is linked to it, and objects that
    carried the name of their key carry it. -/
structure Spares (root : Root) (s t : Store) : Prop where
  marks : s.KeepsMarks root t
  linked : ∀ key, t.HasLinked root key → s.HasLinked root key
  named : s.Named → t.Named

variable {root : Root} {s t u : Store}

theorem Spares.of_objects (h : t.objects = s.objects) : s.Spares root t where
  marks o ho := ⟨o, by rw [h]; exact ho, .refl _⟩
  linked key hkey := by
    obtain ⟨o, ho, hlinks⟩ := hkey.stored
    rw [h] at ho
    exact ⟨hkey.foreign, o, ho, hlinks⟩
  named hnamed key o ho := by
    rw [h] at ho
    exact hnamed key o ho

theorem Spares.trans (h : s.Spares root t) (g : t.Spares root u) : s.Spares root u where
  marks o ho := by
    obtain ⟨p, hp, hmarks⟩ := h.marks o ho
    obtain ⟨q, hq, hmarks'⟩ := g.marks p hp
    exact ⟨q, hq, hmarks.trans hmarks'⟩
  linked key hkey := h.linked key (g.linked key hkey)
  named hnamed := g.named (h.named hnamed)

theorem KeepsMarks.holdsRoot (h : s.KeepsMarks root t) (holds : s.HoldsRoot root) :
    t.HoldsRoot root := by
  obtain ⟨o, ho, hholds⟩ := holds
  obtain ⟨p, hp, hmarks⟩ := h o ho
  exact ⟨p, hp, hmarks.holds.trans hholds⟩

theorem KeepsMarks.records (h : s.KeepsMarks root t) {ns : String} (records : s.Records root ns) :
    t.Records root ns := by
  obtain ⟨o, ho, hholds, hns⟩ := records
  obtain ⟨p, hp, hmarks⟩ := h o ho
  exact ⟨p, hp, hmarks.holds.trans hholds, by rw [hmarks.recorded]; exact hns⟩

/-- What leaves finalizers, record and links alone keeps the account. -/
theorem Spares.accounts (h : s.Spares root t) (accounts : s.Accounts root) : t.Accounts root where
  stored := by
    obtain ⟨o, ho⟩ := accounts.stored
    obtain ⟨p, hp, _⟩ := h.marks o ho
    exact ⟨p, hp⟩
  named := h.named accounts.named
  kinds key hkey := accounts.kinds key (h.linked key hkey)
  recorded key hkey := h.marks.records (accounts.recorded key (h.linked key hkey))

/-! ## §4. Calls -/

/-- The call changes neither finalizers nor record of the root, and links nothing, whatever the
    store holds. -/
def Harmless (root : Root) : StoreCall → Prop
  | .get _ => True
  | .list _ _ _ => True
  | .updateStatus _ _ => True
  | .delete key => key.ns ≠ root.ns
  | .create _ _ => False
  | .update _ _ => False

/-- A write that keeps all metadata but the version. -/
theorem spares_of_metadata {key : Key} {stored p : Object} {version : Option String}
    (here : Table.get? s.objects key = some stored)
    (written : t.objects = Table.insert s.objects key p)
    (kept : p.metadata = { stored.metadata with resourceVersion := version }) :
    s.Spares root t := by
  -- what is held later under a key was held before, but for versions and data
  have hback : ∀ k o, Table.get? t.objects k = some o → ∃ q, Table.get? s.objects k = some q ∧
      o.metadata.name = q.metadata.name ∧ o.metadata.labels = q.metadata.labels := by
    intro k o ho
    rw [written] at ho
    rcases Table.get?_of_insert ho with ⟨rfl, rfl⟩ | ⟨_, hbefore⟩
    · exact ⟨stored, here, by rw [kept], by rw [kept]⟩
    · exact ⟨o, hbefore, rfl, rfl⟩
  refine ⟨?_, ?_, ?_⟩
  · intro o ho
    rw [written, Table.get?_insert]
    by_cases hk : key = root.key
    · rw [hk, ho] at here
      injection here with here
      subst here
      exact ⟨p, if_pos hk, by rw [kept], by rw [kept]⟩
    · exact ⟨o, by rw [if_neg hk]; exact ho, .refl _⟩
  · intro k hk
    obtain ⟨o, ho, hlinks⟩ := hk.stored
    obtain ⟨q, hq, _, hlabels⟩ := hback k o ho
    refine ⟨hk.foreign, q, hq, fun e he => ?_⟩
    rw [← hlabels]
    exact hlinks e he
  · intro hnamed k o ho
    obtain ⟨q, hq, hname, _⟩ := hback k o ho
    rw [hname]
    exact hnamed k q hq

/-- What is deleted outside the namespace of the root. -/
theorem spares_of_erase {key : Key} (foreign : key.ns ≠ root.ns)
    (erased : t.objects = Table.erase s.objects key) : s.Spares root t := by
  have hback : ∀ k o, Table.get? t.objects k = some o → Table.get? s.objects k = some o := by
    intro k o ho
    rw [erased] at ho
    exact (Table.get?_of_erase ho).2
  refine ⟨?_, ?_, fun hnamed k o ho => hnamed k o (hback k o ho)⟩
  · intro o ho
    have hne : key ≠ root.key := fun h => foreign (congrArg Key.ns h)
    exact ⟨o, by rw [erased, Table.get?_erase, if_neg hne]; exact ho, .refl _⟩
  · intro k hk
    obtain ⟨o, ho, hlinks⟩ := hk.stored
    exact ⟨hk.foreign, o, hback k o ho, hlinks⟩

theorem spares_perform {c : StoreCall} (harmless : Harmless root c) (s : Store) :
    s.Spares root (s.perform c).2 := by
  cases c with
  | get key | list kind ns selector => exact .of_objects rfl
  | create key o | update key o => exact absurd harmless id
  | updateStatus key o =>
    generalize hreply : s.perform (.updateStatus key o) = reply
    obtain ⟨reply, t⟩ := reply
    cases reply with
    | error e =>
      rw [perform_error hreply]
      exact .of_objects rfl
    | ok a =>
      obtain ⟨stored, hstored, _, ht⟩ := perform_updateStatus_ok hreply
      exact spares_of_metadata hstored ht rfl
  | delete key => exact spares_of_erase harmless (perform_delete s key).2

/-- What the cluster lists in a place has what is linked there. -/
theorem Named.mem_listed (named : s.Named) (name : ',' ∉ root.name.toList)
    (rootNs : ',' ∉ root.ns.toList) {kind : Kind} {ns : String} {objects : List Object}
    (listed : s.perform (.list kind ns root.linkSelector) = (.ok objects, t)) {key : Key}
    (place : (key.ns, key.kind) = (ns, kind)) {o : Object}
    (stored : Table.get? s.objects key = some o) (links : root.Links o) :
    key ∈ objects.map fun o => ⟨kind, ns, o.metadata.name.getD ""⟩ := by
  obtain ⟨rfl, rfl⟩ := Prod.mk.inj place
  injection listed with hreply _
  injection hreply with hobjects
  refine List.mem_map.mpr ⟨o, ?_, ?_⟩
  · rw [← hobjects]
    refine List.mem_map.mpr
      ⟨(key, o), List.mem_filter.mpr ⟨Table.mem_of_get? stored, ?_⟩, rfl⟩
    simp [(Root.accepts_iff_links name rootNs).mpr links]
  · rw [named key o stored]
    rfl

/-- What is written carries the name of its key. -/
theorem Named.put (h : s.Named) {key : Key} {p : Object}
    (written : t.objects = Table.insert s.objects key p) (name : p.metadata.name = some key.name) :
    t.Named := by
  intro k o ho
  rw [written] at ho
  rcases Table.get?_of_insert ho with ⟨rfl, rfl⟩ | ⟨_, hbefore⟩
  · exact name
  · exact h k o hbefore

/-- A child is written to a namespace on record, or to that of the root. -/
theorem Accounts.put_child (accounts : s.Accounts root) {key : Key} {p : Object}
    (written : t.objects = Table.insert s.objects key p) (kind : key.kind ∈ Kind.children)
    (home : key.ns = root.ns ∨ s.Records root key.ns)
    (name : p.metadata.name = some key.name) :
    s.KeepsMarks root t ∧ t.Accounts root := by
  have hne : key ≠ root.key := by
    rintro rfl
    revert kind
    show root.kind.kind ∉ Kind.children
    cases root.kind <;> decide
  have hmarks : s.KeepsMarks root t := by
    intro o ho
    exact ⟨o, by rw [written, Table.get?_insert, if_neg hne]; exact ho, .refl _⟩
  -- what is linked later was linked before, or is the child
  have hlinked : ∀ k, t.HasLinked root k → k = key ∨ s.HasLinked root k := by
    intro k hk
    obtain ⟨o, ho, hlinks⟩ := hk.stored
    rw [written] at ho
    rcases Table.get?_of_insert ho with ⟨hkey, _⟩ | ⟨_, hbefore⟩
    · exact .inl hkey.symm
    · exact .inr ⟨hk.foreign, o, hbefore, hlinks⟩
  refine ⟨hmarks, ?_, ?_, ?_, ?_⟩
  · obtain ⟨o, ho⟩ := accounts.stored
    obtain ⟨q, hq, _⟩ := hmarks o ho
    exact ⟨q, hq⟩
  · exact accounts.named.put written name
  · intro k hk
    rcases hlinked k hk with rfl | h
    · exact kind
    · exact accounts.kinds k h
  · intro k hk
    rcases hlinked k hk with rfl | h
    · exact hmarks.records (home.resolve_left hk.foreign)
    · exact hmarks.records (accounts.recorded k h)

/-- The object may be written under the key: it has the kind of a child and the name of the key,
    and is at home or in a linked namespace. -/
structure FitsChild (root : Root) (linked : Roster String) (key : Key) (o : Object) : Prop where
  kind : key.kind ∈ Kind.children
  home : key.ns = root.ns ∨ key.ns ∈ linked
  name : o.metadata.name = some key.name

/-- The call writes objects only as children, if at all. -/
inductive Tends (root : Root) (linked : Roster String) : StoreCall → Prop
  | harmless {c : StoreCall} : Harmless root c → Tends root linked c
  | create {key : Key} {o : Object} : FitsChild root linked key o →
      Tends root linked (.create key o)
  | update {key : Key} {o : Object} : FitsChild root linked key o →
      Tends root linked (.update key o)

/-- With the linked namespaces on record such a call keeps the account. -/
theorem Accounts.perform (accounts : s.Accounts root) {linked : Roster String}
    (known : ∀ ns ∈ linked, s.Records root ns) {c : StoreCall} (tends : Tends root linked c) :
    s.KeepsMarks root (s.perform c).2 ∧ (s.perform c).2.Accounts root := by
  have hrefused : ∀ c e t, s.perform c = (.error e, t) → s.KeepsMarks root t ∧ t.Accounts root := by
    intro c e t hreply
    rw [perform_error hreply]
    exact ⟨fun o ho => ⟨o, ho, .refl _⟩, accounts⟩
  cases tends with
  | harmless h =>
    have hspares := spares_perform h s
    exact ⟨hspares.marks, hspares.accounts accounts⟩
  | create fits =>
    rename_i key o
    generalize hreply : s.perform (.create key o) = reply
    obtain ⟨reply, t⟩ := reply
    cases reply with
    | error e => exact hrefused _ e t hreply
    | ok a =>
      exact accounts.put_child (perform_create_ok hreply).2 fits.kind (fits.home.imp id (known _))
        fits.name
  | update fits =>
    rename_i key o
    generalize hreply : s.perform (.update key o) = reply
    obtain ⟨reply, t⟩ := reply
    cases reply with
    | error e => exact hrefused _ e t hreply
    | ok a =>
      obtain ⟨_, _, _, written⟩ := perform_update_ok hreply
      exact accounts.put_child written fits.kind (fits.home.imp id (known _)) fits.name

/-- What is under the key of the root is written.  Nothing is linked by that. -/
theorem linked_of_put_root {p : Object} (written : t.objects = Table.insert s.objects root.key p)
    {key : Key} (h : t.HasLinked root key) : s.HasLinked root key := by
  obtain ⟨o, ho, hlinks⟩ := h.stored
  rw [written] at ho
  rcases Table.get?_of_insert ho with ⟨hkey, _⟩ | ⟨_, hbefore⟩
  · exact absurd (congrArg Key.ns hkey.symm) h.foreign
  · exact ⟨h.foreign, o, hbefore, hlinks⟩

/-- A root that was read as `o`, and has kept finalizers and record since, is written back held for
    plain namespaces. -/
theorem Accounts.put_held (accounts : s.Accounts root) {o : Object}
    (name : o.metadata.name = some root.name)
    (kept : ∀ p, Table.get? s.objects root.key = some p → Finalizer.SameMarks o.metadata p.metadata)
    {linked : Roster String} (plain : ∀ ns ∈ linked, Finalizer.Plain ns) {reply : Object}
    (answered : s.perform (.update root.key { o with metadata := Finalizer.held o.metadata linked })
      = (.ok reply, t)) :
    t.Accounts root ∧ t.HoldsRoot root ∧ ∀ ns ∈ linked, t.Records root ns := by
  obtain ⟨stored, _, _, written⟩ := perform_update_ok answered
  obtain ⟨hholds, hknown⟩ := Finalizer.hold?_eq_none_iff.mp (Finalizer.hold?_held plain)
  have hroot := congrArg (Table.get? · root.key) written
  rw [Table.get?_insert, if_pos rfl] at hroot
  -- what is on record now was there when the root was read
  have hbefore : ∀ ns, s.Records root ns →
      ns ∈ Finalizer.recorded (Finalizer.held o.metadata linked) := by
    rintro ns ⟨p, hp, _, hns⟩
    rw [(kept p hp).recorded] at hns
    exact Finalizer.recorded_held plain hns
  refine ⟨⟨⟨_, hroot⟩, accounts.named.put written ?_, ?_, ?_⟩, ⟨_, hroot, hholds⟩,
    fun ns hns => ⟨_, hroot, hholds, hknown ns hns⟩⟩
  · exact (Finalizer.held_name _ _).trans name
  · exact fun k hk => accounts.kinds k (linked_of_put_root written hk)
  · intro k hk
    have hrecorded := accounts.recorded k (linked_of_put_root written hk)
    exact ⟨_, hroot, hholds, hbefore _ hrecorded⟩

/-- The root may be let go where nothing is linked to it. -/
theorem Accounts.put_released (accounts : s.Accounts root) (unlinked : s.Unlinked root) {p : Object}
    (written : t.objects = Table.insert s.objects root.key p)
    (name : p.metadata.name = some root.name) : t.Accounts root ∧ t.Unlinked root := by
  have hnone : t.Unlinked root := fun k hk => unlinked k (linked_of_put_root written hk)
  have hroot : Table.get? t.objects root.key = some p := by
    rw [written, Table.get?_insert, if_pos rfl]
  exact ⟨⟨⟨p, hroot⟩, accounts.named.put written name,
    fun k hk => absurd hk (hnone k), fun k hk => absurd hk (hnone k)⟩, hnone⟩

end Store

end Converge
