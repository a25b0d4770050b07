/-
  Converge.Proofs.Pass.Cleanup — finding what is linked to a root, and deleting it.

  A root that goes takes along what the ledger knows of it outside its namespace, and what its
  selector finds there.  As long as no other actor writes, what the store holds is told here object
  by object, versions included: after all went well, and after a fault, whichever call it struck and
  whether or not that call had reached the store.

  Main statements:
    * `Store.mem_listed_iff` — what is listed in a place is what is linked to the root there.
    * `World.losing_of_error` — a call that failed has done nothing, or its answer was lost.
    * `Pass.ends_deleteAll` — deletions that are cut short have deleted some of the keys.
    * `Pass.ends_deleteLinked` — all that is to go with a root goes, or after a fault some of it.
-/
import Converge.Proofs.Pass.Record
import Converge.Proofs.Pass.Shaken

namespace Converge

/-! ## §1. What a selector finds -/

/-- Every object is kept once, and carries the name of its key. -/
structure Store.Filed (s : Store) : Prop where
  once : (Table.keys s.objects).Nodup
  named : s.Named

theorem Store.Filed.of_objects {s t : Store} (h : s.Filed) (same : t.objects = s.objects) :
    t.Filed := by
  refine ⟨by rw [same]; exact h.once, fun key o ho => h.named key o ?_⟩
  rw [← same]
  exact ho

theorem Store.filed_of_entries {s : Store} (once : (Table.keys s.objects).Nodup)
    (named : ∀ e ∈ s.objects, e.2.metadata.name = some e.1.name) : s.Filed :=
  ⟨once, fun key o ho => named (key, o) (Table.mem_of_get? ho)⟩

/-- An object is stored under the key and linked to the root. -/
def Store.LinkedTo (s : Store) (root : Root) (key : Key) : Prop :=
  ∃ o, Table.get? s.objects key = some o ∧ root.Links o

theorem Store.linkedTo_of_objects {s t : Store} (same : t.objects = s.objects) (root : Root)
    (key : Key) : t.LinkedTo root key ↔ s.LinkedTo root key := by
  unfold LinkedTo
  rw [same]

/-- What is listed in a place is what is linked to the root there. -/
theorem Store.mem_listed_iff {s t : Store} {root : Root} {kind : Kind} {ns : String}
    {objects : List Object} (name : ',' ∉ root.name.toList) (rootNs : ',' ∉ root.ns.toList)
    (filed : s.Filed) (listed : s.perform (.list kind ns root.linkSelector) = (.ok objects, t))
    (key : Key) :
    key ∈ objects.map (fun o => (⟨kind, ns, o.metadata.name.getD ""⟩ : Key))
      ↔ (key.ns, key.kind) = (ns, kind) ∧ s.LinkedTo root key := by
  constructor
  · intro hkey
    obtain ⟨hreply, _⟩ := Prod.mk.inj listed
    rw [← Except.ok.inj hreply] at hkey
    obtain ⟨o, ho, rfl⟩ := List.mem_map.mp hkey
    obtain ⟨⟨k, o⟩, he, rfl⟩ := List.mem_map.mp ho
    obtain ⟨hmem, hplace⟩ := List.mem_filter.mp he
    simp only [Bool.and_eq_true, decide_eq_true_eq] at hplace
    obtain ⟨⟨rfl, rfl⟩, haccepts⟩ := hplace
    -- the key that is read off an object is the one it is stored under
    have hget := Table.get?_of_mem filed.once hmem
    have hname : (⟨k.kind, k.ns, o.metadata.name.getD ""⟩ : Key) = k := by
      rw [filed.named k o hget]
      rfl
    rw [hname]
    exact ⟨rfl, o, hget, (Root.accepts_iff_links name rootNs).mp haccepts⟩
  · rintro ⟨hplace, o, ho, hlinks⟩
    exact filed.named.mem_listed name rootNs listed hplace ho hlinks

/-- The key is to go with a root that has this record: it is outside the namespace of the root and
    of a kind that is served, and it is known, or what is stored there is linked to the root, in a
    namespace on record or in the scope. -/
def Store.Reaches (s : Store) (root : Root) (m : Metadata) (known : List Key)
    (scope : Roster String) (caps : Capabilities) (key : Key) : Prop :=
  key.ns ≠ root.ns ∧ caps.supports key.kind = true ∧
    (key ∈ known ∨ ((key.ns ∈ Finalizer.recorded m ∨ key.ns ∈ scope) ∧
      key.kind ∈ Kind.children ∧ s.LinkedTo root key))

theorem Store.reaches_of_objects {s t : Store} (same : t.objects = s.objects) {root : Root}
    {m : Metadata} {known : List Key} {scope : Roster String} {caps : Capabilities} {key : Key} :
    t.Reaches root m known scope caps key ↔ s.Reaches root m known scope caps key := by
  unfold Reaches
  rw [linkedTo_of_objects same]

/-! ## §2. Answers that are lost -/

/-- A disturbance waits for the answer to a call of the kind. -/
def World.Losing (w : World) (kind : CallKind) : Prop :=
  ∃ d ∈ w.disturbances, d.after = true ∧ d.call = kind

/-- What strikes a call waits for its kind in that phase, and what is left are the same
    disturbances. -/
theorem Disturbance.meet_among (after : Bool) (c : StoreCall) (ds : List Disturbance)
    (w : Shaken) :
    ((meet after c ds w).1.isSome = true → ∃ d ∈ ds, d.after = after ∧ d.call = c.callKind) ∧
      ∀ e ∈ (meet after c ds w).2.1, ∃ d ∈ ds, e.after = d.after ∧ e.call = d.call := by
  induction ds generalizing w with
  | nil => exact ⟨nofun, fun e he => absurd he List.not_mem_nil⟩
  | cons d rest ih =>
    -- the others meet the call after the first, which counted it or not
    have hrest : ∀ (e : Disturbance) (v : Shaken), e.after = d.after → e.call = d.call →
        ((meet after c rest v).1.isSome = true →
          ∃ f ∈ d :: rest, f.after = after ∧ f.call = c.callKind) ∧
        ∀ g ∈ e :: (meet after c rest v).2.1,
          ∃ f ∈ d :: rest, g.after = f.after ∧ g.call = f.call := by
      intro e v hafter hcall
      obtain ⟨hfault, hkept⟩ := ih v
      refine ⟨fun h => ?_, fun g hg => ?_⟩
      · obtain ⟨f, hf, hstrikes⟩ := hfault h
        exact ⟨f, List.mem_cons_of_mem _ hf, hstrikes⟩
      · rcases List.mem_cons.mp hg with rfl | hg
        · exact ⟨d, List.mem_cons_self, hafter, hcall⟩
        · obtain ⟨f, hf, hsame⟩ := hkept g hg
          exact ⟨f, List.mem_cons_of_mem _ hf, hsame⟩
    unfold meet
    split
    · rename_i hmet
      simp only [counts, Bool.and_eq_true, beq_iff_eq] at hmet
      dsimp only
      split
      · split
        · -- it strikes, and the others do not see the call
          refine ⟨fun _ => ⟨d, List.mem_cons_self, hmet.1, hmet.2.1.1⟩, fun g hg => ?_⟩
          rcases List.mem_cons.mp hg with rfl | hg
          · exact ⟨d, List.mem_cons_self, rfl, rfl⟩
          · exact ⟨g, List.mem_cons_of_mem _ hg, rfl, rfl⟩
        · exact hrest _ _ rfl rfl
      · exact hrest _ w rfl rfl
    · exact hrest d w rfl rfl

/-- A call leaves the disturbances that there were. -/
theorem World.Losing.earlier {w : World} {c : StoreCall} {kind : CallKind}
    (h : (handle (.call c) w).2.Losing kind) : w.Losing kind := by
  obtain ⟨d, hd, hafter, hkind⟩ := h
  obtain ⟨_, hbefore⟩ := Disturbance.meet_among false c w.disturbances ⟨w.store, w.cancelled⟩
  have hback : ∀ e ∈ (Disturbance.meet false c w.disturbances ⟨w.store, w.cancelled⟩).2.1,
      d.after = e.after ∧ d.call = e.call → w.Losing kind := by
    intro e he same
    obtain ⟨f, hf, hfafter, hfcall⟩ := hbefore e he
    exact ⟨f, hf, (same.1.trans hfafter).symm.trans hafter,
      (same.2.trans hfcall).symm.trans hkind⟩
  simp only [handle, World.call, Disturbance.perform] at hd
  generalize Disturbance.meet false c w.disturbances ⟨w.store, w.cancelled⟩ = met at hd hback
  obtain ⟨fault, ds, shaken⟩ := met
  cases fault with
  | some e => exact hback d hd ⟨rfl, rfl⟩
  | none =>
    dsimp only at hd
    split at hd
    · exact hback d hd ⟨rfl, rfl⟩
    · obtain ⟨_, hlater⟩ := Disturbance.meet_among true c ds
        { shaken with store := (shaken.store.perform c).2 }
      generalize Disturbance.meet true c ds { shaken with store := (shaken.store.perform c).2 }
        = met at hd hlater
      obtain ⟨fault, ds', shaken'⟩ := met
      have hfrom : d ∈ ds' := by cases fault <;> exact hd
      obtain ⟨e, he, hsame⟩ := hlater d hfrom
      exact hback e he hsame

/-- A call that failed has left the store as it was, or its answer was lost. -/
theorem World.losing_of_error {w : World} (alone : w.Alone) {c : StoreCall} {e : StoreError}
    (h : (handle (.call c) w).1 = .error e) :
    (handle (.call c) w).2.store = w.store ∨ w.Losing c.callKind := by
  obtain ⟨hstore, _⟩ := Disturbance.meet_noWriter alone false c ⟨w.store, w.cancelled⟩
  obtain ⟨_, hbefore⟩ := Disturbance.meet_among false c w.disturbances ⟨w.store, w.cancelled⟩
  simp only [handle, World.call, Disturbance.perform] at h ⊢
  generalize Disturbance.meet false c w.disturbances ⟨w.store, w.cancelled⟩ = met
    at h hstore hbefore ⊢
  obtain ⟨fault, ds, shaken⟩ := met
  cases fault with
  | some f => exact .inl hstore
  | none =>
    have hsame : shaken.store = w.store := hstore
    dsimp only at h ⊢
    cases hreply : shaken.store.perform c with
    | mk reply t =>
      cases reply with
      | error f =>
        refine .inl ?_
        rw [← hsame]
        exact Store.perform_error hreply
      | ok a =>
        rw [hreply] at h
        obtain ⟨hlater, _⟩ := Disturbance.meet_among true c ds { shaken with store := t }
        dsimp only at h
        generalize Disturbance.meet true c ds { shaken with store := t } = met at h hlater
        obtain ⟨fault, ds', shaken'⟩ := met
        cases fault with
        | none => cases h
        | some f =>
          obtain ⟨d, hd, hafter, hcall⟩ := hlater rfl
          obtain ⟨e, he, heafter, hecall⟩ := hbefore d hd
          exact .inr ⟨e, he, heafter.symm.trans hafter, hecall.symm.trans hcall⟩

/-! ## §3. What the store holds, object by object -/

namespace World

/-- Requests of a pass lead from one world to another that has the same ledger. -/
structure Passes (w w' : World) : Prop extends w.Follows w' where
  ledger : w'.ledger = w.ledger
  losing : ∀ kind, w'.Losing kind → w.Losing kind

/-- What was stored under these keys is gone, and all else is as it was. -/
structure Drops (w : World) (keys : List Key) (w' : World) : Prop extends w.Passes w' where
  stored : ∀ key, Table.get? w'.store.objects key
    = if key ∈ keys then none else Table.get? w.store.objects key

/-- All that was stored is still there. -/
structure Keeps (w w' : World) : Prop extends w.Passes w' where
  objects : w'.store.objects = w.store.objects

variable {w v u : World} {keys more : List Key}

theorem Passes.refl (alone : w.Alone) : w.Passes w := ⟨.refl alone, rfl, fun _ h => h⟩

theorem Passes.trans (h : w.Passes v) (g : v.Passes u) : w.Passes u :=
  ⟨h.toFollows.trans g.toFollows, g.ledger.trans h.ledger,
    fun kind hkind => h.losing kind (g.losing kind hkind)⟩

theorem Keeps.refl (alone : w.Alone) : w.Keeps w := ⟨.refl alone, rfl⟩

theorem Keeps.trans (h : w.Keeps v) (g : v.Keeps u) : w.Keeps u :=
  ⟨h.toPasses.trans g.toPasses, g.objects.trans h.objects⟩

theorem Keeps.drops (h : w.Keeps v) : w.Drops [] v := by
  refine ⟨h.toPasses, fun key => ?_⟩
  rw [h.objects, if_neg List.not_mem_nil]

theorem Drops.trans (h : w.Drops keys v) (g : v.Drops more u) : w.Drops (keys ++ more) u := by
  refine ⟨h.toPasses.trans g.toPasses, fun key => ?_⟩
  rw [g.stored, h.stored]
  by_cases hk : key ∈ keys <;> by_cases hm : key ∈ more <;> simp [hk, hm]

/-- A deletion. -/
theorem Passes.drops {key : Key} (h : w.Passes v)
    (deleted : v.store = (w.store.perform (.delete key)).2) : w.Drops [key] v := by
  refine ⟨h, fun k => ?_⟩
  rw [deleted, (Store.perform_delete w.store key).2, Table.get?_erase]
  simp only [List.mem_singleton, eq_comm]

end World

/-! ## §4. Finding and deleting -/

namespace Pass

variable {α : Type} {w : World} {root : Root} {done : α → World → Prop}
  {fault : PassError → World → Prop}

/-- A call that the store would answer is answered, or has done nothing, or its answer is lost. -/
theorem ends_struck {c : StoreCall} {reply : c.Reply} {s : Store} (alone : w.Alone)
    (answer : w.store.perform c = (.ok reply, s)) {next : c.Reply → Pass α}
    (answered : ∀ w', w.Passes w' → w'.store = s → (next reply).Ends w' done fault)
    (struck : ∀ w' e, ¬ w.Calm → w.Passes w' →
      (w'.store = w.store ∨ w.Losing c.callKind ∧ w'.store = s) → fault (.store e) w') :
    ((call c).bind next).Ends w done fault := by
  obtain ⟨hfollows, hledger, hend⟩ := World.handle_call_alone alone c
  have hpasses : w.Passes (World.handle (.call c) w).2 :=
    ⟨hfollows, hledger, fun _ => World.Losing.earlier⟩
  rw [answer] at hend
  refine Ends.of_reply ?_
  rcases hend with ⟨hreply, hstore⟩ | ⟨e, hreply, hshaken, hstore⟩
  · rw [hreply]
    exact answered _ hpasses hstore
  · have hlosing := World.losing_of_error alone hreply
    rw [hreply]
    refine struck _ e hshaken hpasses ?_
    rcases hlosing with hsame | hlosing
    · exact .inl hsame
    · exact hstore.imp id fun hdone => ⟨hlosing, hdone⟩

/-- A call that only reads. -/
theorem ends_read {c : StoreCall} {reply : c.Reply} {s : Store} (alone : w.Alone)
    (answer : w.store.perform c = (.ok reply, s)) (same : s.objects = w.store.objects)
    {next : c.Reply → Pass α} (answered : ∀ w', w.Keeps w' → (next reply).Ends w' done fault)
    (struck : ∀ w' e, ¬ w.Calm → w.Keeps w' → fault (.store e) w') :
    ((call c).bind next).Ends w done fault := by
  refine ends_struck alone answer ?_ ?_
  · intro w' passes store
    exact answered w' ⟨passes, (congrArg Store.objects store).trans same⟩
  · intro w' e shaken passes store
    refine struck w' e shaken ⟨passes, ?_⟩
    rcases store with store | ⟨_, store⟩
    · exact congrArg Store.objects store
    · exact (congrArg Store.objects store).trans same

/-- Places are looked through, which changes nothing. -/
theorem ends_collectLinked (name : ',' ∉ root.name.toList) (rootNs : ',' ∉ root.ns.toList)
    (alone : w.Alone) (filed : w.store.Filed) (places : List (String × Kind))
    (found : Roster Key) :
    (collectLinked root places found).Ends w
      (fun doomed w' => w.Keeps w' ∧ ∀ key, key ∈ doomed ↔
        key ∈ found ∨ ((key.ns, key.kind) ∈ places ∧ w.store.LinkedTo root key))
      fun _ w' => ¬ w.Calm ∧ w.Keeps w' := by
  induction places generalizing w found with
  | nil => exact ⟨.refl alone, by simp⟩
  | cons place places ih =>
    obtain ⟨ns, kind⟩ := place
    show (((call (.list kind ns root.linkSelector)).bind fun objects =>
      .done (objects.map fun o => (⟨kind, ns, o.metadata.name.getD ""⟩ : Key))).bind fun keys =>
        collectLinked root places (Roster.union found keys)).Ends w _ _
    rw [bind_assoc]
    refine ends_read (s := w.store.countRead) alone rfl rfl ?answered ?struck
    case struck => exact fun w' e shaken keeps => ⟨shaken, keeps⟩
    case answered =>
      intro v keeps
      have hlisted := Store.mem_listed_iff name rootNs filed
        (rfl : w.store.perform (.list kind ns root.linkSelector) = _)
      refine (ih keeps.alone (filed.of_objects keeps.objects) _).mono ?_ ?_
      · rintro doomed w' ⟨hkeeps, hdoomed⟩
        refine ⟨keeps.trans hkeeps, fun key => ?_⟩
        rw [hdoomed, Roster.mem_union, hlisted, Store.linkedTo_of_objects keeps.objects,
          List.mem_cons, or_and_right, or_assoc]
      · rintro e w' ⟨shaken, hkeeps⟩
        exact ⟨fun calm => shaken (keeps.calm calm).1, keeps.trans hkeeps⟩

/-- Keys are deleted one after the other; after a fault some of them are gone. -/
theorem ends_deleteAll (alone : w.Alone) (keys : List Key) :
    (deleteAll keys).Ends w (fun _ w' => w.Drops keys w')
      fun _ w' => ¬ w.Calm ∧ ∃ gone, gone ⊆ keys ∧ w.Drops gone w' := by
  induction keys generalizing w with
  | nil => exact (World.Keeps.refl alone).drops
  | cons key keys ih =>
    have answer : w.store.perform (.delete key) = (.ok (), (w.store.perform (.delete key)).2) :=
      Prod.ext (Store.perform_delete w.store key).1 rfl
    refine ends_struck alone answer ?answered ?struck
    case answered =>
      intro v passes store
      have hdrops : w.Drops [key] v := passes.drops store
      refine (ih passes.alone).mono (fun _ w' h => hdrops.trans h) ?_
      rintro e w' ⟨shaken, gone, hgone, hlater⟩
      refine ⟨fun calm => shaken (passes.calm calm).1, key :: gone, ?_, hdrops.trans hlater⟩
      exact List.cons_subset_cons key hgone
    case struck =>
      intro w' e shaken passes store
      refine ⟨shaken, ?_⟩
      rcases store with store | ⟨_, store⟩
      · exact ⟨[], List.nil_subset _,
          World.Keeps.drops ⟨passes, congrArg Store.objects store⟩⟩
      · exact ⟨[key], List.cons_subset_cons key (List.nil_subset _), passes.drops store⟩

/-- What is collected is what the ledger knows and what is linked, outside the namespace of the root
    and of kinds that are served. -/
theorem mem_doomed_iff {s : Store} {m : Metadata} {known : List Key} {scope : Roster String}
    {caps : Capabilities} {doomed : Roster Key}
    (collected : ∀ key, key ∈ doomed ↔
      key ∈ Roster.ofList (known.filter fun k => k.ns ≠ root.ns && caps.supports k.kind) ∨
        ((key.ns, key.kind) ∈ (((Roster.union (Finalizer.recorded m) scope).filter
            fun ns => ns ≠ root.ns).flatMap
          fun ns => (Kind.children.filter caps.supports).map fun kind => (ns, kind)) ∧
          s.LinkedTo root key)) (key : Key) :
    key ∈ doomed ↔ s.Reaches root m known scope caps key := by
  rw [collected]
  simp only [Roster.mem_ofList, Roster.mem_union, List.mem_filter, List.mem_flatMap, List.mem_map,
    Prod.mk.injEq, Bool.and_eq_true, decide_eq_true_eq]
  constructor
  · rintro (⟨hknown, hns, hkind⟩ | ⟨⟨ns, ⟨hns, hne⟩, kind, ⟨hkind, hserved⟩, rfl, rfl⟩, hlinked⟩)
    · exact ⟨hns, hkind, .inl hknown⟩
    · exact ⟨hne, hserved, .inr ⟨hns, hkind, hlinked⟩⟩
  · rintro ⟨hne, hserved, hknown | ⟨hns, hkind, hlinked⟩⟩
    · exact .inl ⟨hknown, hne, hserved⟩
    · exact .inr ⟨⟨key.ns, ⟨hns, hne⟩, key.kind, ⟨hkind, hserved⟩, rfl, rfl⟩, hlinked⟩

/-- What is known or found is deleted; after a fault some of it is gone. -/
theorem ends_deleteLinked (name : ',' ∉ root.name.toList) (rootNs : ',' ∉ root.ns.toList)
    (alone : w.Alone) (filed : w.store.Filed) (m : Metadata) (known : List Key)
    (scope : Roster String) (caps : Capabilities) :
    (deleteLinked root m known scope caps).Ends w
      (fun _ w' => ∃ keys, w.Drops keys w' ∧
        ∀ key, key ∈ keys ↔ w.store.Reaches root m known scope caps key)
      fun _ w' => ¬ w.Calm ∧ ∃ keys, w.Drops keys w' ∧
        ∀ key ∈ keys, w.store.Reaches root m known scope caps key := by
  unfold deleteLinked
  refine Ends.bind ((ends_collectLinked name rootNs alone filed _ _).mono ?found ?unfound)
  case unfound =>
    rintro e w' ⟨shaken, keeps⟩
    exact ⟨shaken, [], keeps.drops, fun key hkey => absurd hkey List.not_mem_nil⟩
  case found =>
    rintro collected v ⟨keeps, hcollected⟩
    have hdoomed : ∀ key, key ∈ collected ↔ w.store.Reaches root m known scope caps key :=
      mem_doomed_iff hcollected
    refine Ends.bind ((ends_deleteAll keeps.alone collected).mono ?gone ?some)
    case gone => exact fun _ w' drops => ⟨collected, keeps.drops.trans drops, hdoomed⟩
    case some =>
      rintro e w' ⟨shaken, gone, hgone, drops⟩
      exact ⟨fun calm => shaken (keeps.calm calm).1, gone, keeps.drops.trans drops,
        fun key hkey => (hdoomed key).mp (hgone hkey)⟩

end Pass

end Converge
