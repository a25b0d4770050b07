/-
  Converge.Proofs.Pass.Deletions — what the pass over a root that is being deleted deletes.

  With cleanup on such a pass deletes what the ledger knows of the root outside its namespace, and
  what its selector finds there.  Where nobody else acts it is always done, so that both what it
  deletes and what it leaves can be told from the world it starts in.

  Main statements:
    * `Pass.thinned_run` — a pass that only reads and deletes has deleted what is missing after it.
    * `World.Dooms` — the objects that are to go with a root.
    * `Install.traces_release` — a deletion deletes exactly those, as they were when it began.
-/
import Converge.Proofs.Pass.Cleanup
import Converge.Proofs.Pass.Exchanges
import Converge.Proofs.Pass.Footprint
import Converge.Proofs.Pass.Tags

namespace Converge

/-! ## §1. Deletions in a log -/

/-- An exchange deleted the object under the key. -/
def Exchange.Deletes (x : Exchange) (key : Key) (o : Object) : Prop :=
  x.request = .call (.delete key) ∧ Table.get? x.store.objects key = some o

namespace Traced

/-- The object was deleted under the key. -/
def Deleted (s : Traced) (key : Key) (o : Object) : Prop := ∃ x ∈ s.log, x.Deletes key o

theorem deleted_push {s : Traced} {w : World} {x : Exchange} {key : Key} {o : Object} :
    Deleted ⟨w, s.log ++ [x]⟩ key o ↔ s.Deleted key o ∨ x.Deletes key o := by
  unfold Deleted
  simp only [List.mem_append, List.mem_singleton, or_and_right, exists_or, exists_eq_left]

/-- What is no deletion deletes nothing. -/
theorem deleted_push_of_ne {s : Traced} {w : World} {x : Exchange} {key : Key} {o : Object}
    (other : ∀ key, x.request ≠ .call (.delete key)) :
    Deleted ⟨w, s.log ++ [x]⟩ key o ↔ s.Deleted key o := by
  rw [deleted_push]
  exact or_iff_left fun h => other key h.1

/-- Nothing was deleted. -/
def Clean (s : Traced) : Prop := ∀ key o, ¬ s.Deleted key o

theorem clean_start (w : World) : Clean ⟨w, []⟩ := by
  rintro key o ⟨x, hx, _⟩
  cases hx

theorem Clean.push {s t : Traced} (h : s.Clean) {x : Exchange}
    (log : t.log = s.log ++ [x]) (other : ∀ key, x.request ≠ .call (.delete key)) : t.Clean := by
  obtain ⟨w, log'⟩ := t
  obtain rfl : log' = s.log ++ [x] := log
  intro key o hdeleted
  exact h key o ((deleted_push_of_ne other).mp hdeleted)

end Traced

/-! ## §2. Passes that only read and delete -/

/-- The request leaves every object as it is, or deletes it. -/
def Request.Thins : Request → Prop
  | .call (.get _) | .call (.list _ _ _) | .call (.delete _) => True
  | .call _ => False
  | _ => True

namespace Traced

/-- What is still stored is as it was, and what is not was deleted. -/
structure Thinned (s t : Traced) : Prop where
  calm : t.world.Calm
  kept : ∀ key o, Table.get? t.world.store.objects key = some o →
    Table.get? s.world.store.objects key = some o
  deleted : ∀ key o, t.Deleted key o ↔ s.Deleted key o ∨
    (Table.get? s.world.store.objects key = some o ∧ Table.get? t.world.store.objects key = none)

variable {s t u : Traced}

/-- A request that deletes nothing and leaves all objects where they are. -/
theorem Thinned.of_objects (calm : t.world.Calm) {x : Exchange} (log : t.log = s.log ++ [x])
    (same : t.world.store.objects = s.world.store.objects)
    (other : ∀ key, x.request ≠ .call (.delete key)) : s.Thinned t := by
  obtain ⟨w, log'⟩ := t
  obtain rfl : log' = s.log ++ [x] := log
  refine ⟨calm, fun key o ho => same ▸ ho, fun key o => ?_⟩
  rw [deleted_push_of_ne other, same]
  refine (or_iff_left ?_).symm
  rintro ⟨ho, hnone⟩
  exact absurd (ho.symm.trans hnone) nofun

theorem Thinned.refl (calm : s.world.Calm) : s.Thinned s := by
  refine ⟨calm, fun key o ho => ho, fun key o => (or_iff_left ?_).symm⟩
  rintro ⟨ho, hnone⟩
  exact absurd (ho.symm.trans hnone) nofun

theorem Thinned.trans (h : s.Thinned t) (g : t.Thinned u) : s.Thinned u := by
  refine ⟨g.calm, fun key o ho => h.kept key o (g.kept key o ho), fun key o => ?_⟩
  rw [g.deleted, h.deleted, or_assoc]
  refine or_congr_right ⟨?_, ?_⟩
  · -- what is gone once does not come back
    rintro (⟨ho, hgone⟩ | ⟨ho, hgone⟩)
    · refine ⟨ho, Option.eq_none_iff_forall_ne_some.mpr fun p hp => ?_⟩
      exact absurd (hgone.symm.trans (g.kept key p hp)) nofun
    · exact ⟨h.kept key o ho, hgone⟩
  · rintro ⟨ho, hgone⟩
    cases hlater : Table.get? t.world.store.objects key with
    | none => exact .inl ⟨ho, rfl⟩
    | some p =>
      obtain rfl := Option.some.inj (ho.symm.trans (h.kept key p hlater))
      exact .inr ⟨rfl, hgone⟩

/-- A deletion. -/
theorem thinned_delete (calm : s.world.Calm) (key : Key) :
    s.Thinned ⟨{ s.world with store := (s.world.store.perform (.delete key)).2 },
      s.log ++ [⟨.call (.delete key), s.world⟩]⟩ := by
  have hstored : ∀ k, Table.get? (s.world.store.perform (.delete key)).2.objects k
      = if key = k then none else Table.get? s.world.store.objects k := by
    intro k
    rw [(Store.perform_delete s.world.store key).2, Table.get?_erase]
  refine ⟨calm, fun k o ho => ?_, fun k o => ?_⟩
  · rw [hstored] at ho
    split at ho
    · exact absurd ho nofun
    · exact ho
  · rw [deleted_push]
    refine or_congr_right ⟨?_, ?_⟩
    · rintro ⟨hr, ho⟩
      obtain rfl := StoreCall.delete.inj (Request.call.inj hr)
      exact ⟨ho, (hstored key).trans (if_pos rfl)⟩
    · rintro ⟨ho, hgone⟩
      rw [hstored] at hgone
      split at hgone
      · rename_i hkey
        exact ⟨hkey ▸ rfl, ho⟩
      · exact absurd (ho.symm.trans hgone) nofun

/-- One request. -/
theorem thinned_handle (calm : s.world.Calm) {r : Request} (thins : r.Thins) :
    s.Thinned (Scene.traced.handle r s).2 := by
  have hcall : ∀ c, Scene.traced.handle (.call c) s
      = ((s.world.store.perform c).1, ⟨{ s.world with store := (s.world.store.perform c).2 },
        s.log ++ [⟨.call c, s.world⟩]⟩) := by
    intro c
    show ((World.handle (.call c) s.world).1, _) = _
    rw [World.handle_call calm]
  cases r with
  | call c =>
    rw [hcall]
    cases c with
    | get key | list kind ns selector => exact .of_objects calm rfl rfl nofun
    | delete key => exact thinned_delete calm key
    | create key o | update key o | updateStatus key o => exact absurd thins id
  | capabilities | isCancelled | clock | record | forget | linkedChildren | announce =>
    exact .of_objects calm rfl rfl nofun

end Traced

namespace Pass

variable {s : Traced} {root : Root}

/-- A pass that only reads and deletes. -/
theorem thinned_run {α : Type} {p : Pass α} (thins : p.Only Request.Thins)
    (calm : s.world.Calm) : s.Thinned (p.run Scene.traced.handle s).2 := by
  induction p generalizing s with
  | done a => exact .refl calm
  | fail e => exact .refl calm
  | ask r next ih =>
    -- the rest starts in the world that the first request leaves, which is calm again
    have hstep := Traced.thinned_handle calm thins.1
    exact hstep.trans (ih _ (thins.2 _ trivial) hstep.calm)

/-- Such a pass on its trace, from how it ends. -/
theorem Ends.traces {α : Type} {p : Pass α} {done : α → World → Prop}
    (h : p.Ends s.world done fun _ _ => False) (thins : p.Only Request.Thins)
    (calm : s.world.Calm) : p.Traces s fun a t => done a t.world ∧ s.Thinned t := by
  have hthinned := thinned_run thins calm
  -- the run is the same whether or not its exchanges are kept
  obtain ⟨a, v, ran, ended⟩ := h.exists_run
  obtain ⟨hresult, hworld⟩ := run_traced p s
  rw [ran] at hresult hworld
  refine Traces.of_run (Prod.ext hresult rfl) ⟨?_, hthinned⟩
  rw [hworld]
  exact ended

theorem deletes_thins (caps : Capabilities) : Deletes Request.Thins caps where
  list _ _ _ _ := trivial
  delete _ _ := trivial

/-- All that is known or found is deleted, where nobody else acts. -/
theorem traces_deleteLinked (name : ',' ∉ root.name.toList) (rootNs : ',' ∉ root.ns.toList)
    (calm : s.world.Calm) (filed : s.world.store.Filed) (m : Metadata) (known : List Key)
    (scope : Roster String) (caps : Capabilities) :
    (deleteLinked root m known scope caps).Traces s fun _ t =>
      (∃ keys, s.world.Drops keys t.world ∧
        ∀ key, key ∈ keys ↔ s.world.store.Reaches root m known scope caps key) ∧
      s.Thinned t :=
  Ends.traces
    ((ends_deleteLinked name rootNs calm.alone filed m known scope caps).mono (fun _ _ h => h)
      fun _ _ h => h.1 calm)
    (only_deleteLinked (deletes_thins caps) m known scope) calm

end Pass

/-! ## §3. Letting a root go -/

/-- The key is to go with the root: the root holds the finalizer, and what cleanup reaches from its
    record and from the ledger has the key. -/
def World.Dooms (w : World) (root : Root) (scope : Roster String) (key : Key) : Prop :=
  ∃ o, Table.get? w.store.objects root.key = some o ∧ Finalizer.holds o.metadata = true ∧
    w.store.Reaches root o.metadata (w.ledger.linked root.key) scope w.capabilities key

/-- What is still stored has the tags it had. -/
theorem World.Drops.tags {w v : World} {keys : List Key} (h : w.Drops keys v) (key : Key) :
    v.store.tags key = if key ∈ keys then none else w.store.tags key := by
  show (Table.get? v.store.objects key).map Object.tags = _
  rw [h.stored]
  split <;> rfl

/-- What is doomed was deleted, all other tags are as they were, and the root is forgotten. -/
structure World.Released (w : World) (root : Root) (scope : Roster String) (t : Traced) :
    Prop where
  calm : t.world.Calm
  ledger : t.world.ledger = w.ledger.forget root.key
  gone : ∀ key, w.Dooms root scope key → t.world.store.tags key = none
  kept : ∀ key, ¬ w.Dooms root scope key → t.world.store.tags key = w.store.tags key
  deleted : ∀ key o, t.Deleted key o
    ↔ w.Dooms root scope key ∧ Table.get? w.store.objects key = some o

/-- What is still there has the tags it had. -/
theorem World.Released.tags {w : World} {root : Root} {scope : Roster String} {t : Traced}
    (h : w.Released root scope t) {key : Key} {g : Tags}
    (later : t.world.store.tags key = some g) : w.store.tags key = some g := by
  have hnot : ¬ w.Dooms root scope key := by
    intro dooms
    rw [h.gone key dooms] at later
    exact absurd later nofun
  exact (h.kept key hnot).symm.trans later

/-- The root is forgotten, and nothing was deleted so far. -/
structure World.Forgotten (w : World) (root : Root) (t : Traced) : Prop where
  calm : t.world.Calm
  ledger : t.world.ledger = w.ledger.forget root.key
  objects : t.world.store.objects = w.store.objects
  clean : t.Clean

/-- Where nothing is doomed the root is forgotten, and that is all. -/
theorem World.Forgotten.released {w : World} {root : Root} {t : Traced} (h : w.Forgotten root t)
    {scope : Roster String} (none : ∀ key, ¬ w.Dooms root scope key) :
    w.Released root scope t where
  calm := h.calm
  ledger := h.ledger
  gone key hkey := absurd hkey (none key)
  kept key _ := congrFun (Store.tags_of_objects h.objects) key
  deleted key o := ⟨fun hdeleted => absurd hdeleted (h.clean key o), fun hd => absurd hd.1 (none key)⟩

namespace Pass

variable {s : Traced} {root : Root} {w : World}

/-- A root that holds the finalizer is let go once what is doomed is deleted. -/
theorem traces_letGo (name : ',' ∉ root.name.toList) (rootNs : ',' ∉ root.ns.toList)
    (filed : w.store.Filed) (h : w.Forgotten root s) {o : Object}
    (stored : Table.get? w.store.objects root.key = some o)
    (holds : Finalizer.holds o.metadata = true) (scope : Roster String) :
    ((deleteLinked root o.metadata (w.ledger.linked root.key) scope w.capabilities).bind
      fun deleted => (call (.update root.key
        { o with metadata := Finalizer.released o.metadata })).bind fun _ =>
          Pass.done deleted).Traces s fun _ t => w.Released root scope t := by
  refine (traces_deleteLinked name rootNs h.calm (filed.of_objects h.objects) _ _ _ _).bind ?_
  rintro n t ⟨⟨keys, drops, hkeys⟩, thinned⟩
  have hdooms : ∀ key, key ∈ keys ↔ w.Dooms root scope key := by
    intro key
    rw [hkeys, Store.reaches_of_objects h.objects]
    constructor
    · exact fun hkey => ⟨o, stored, holds, hkey⟩
    · rintro ⟨p, hp, _, hkey⟩
      obtain rfl := Option.some.inj (stored.symm.trans hp)
      exact hkey
  -- the root itself is still there, as it was read
  have hroot : root.key ∉ keys := fun hmem => ((hkeys _).mp hmem).1 rfl
  have hhere : Table.get? t.world.store.objects root.key = some o := by
    rw [drops.stored, if_neg hroot, h.objects]
    exact stored
  refine traces_call thinned.calm (Store.perform_update hhere rfl rfl) ?_
  have htags : ((t.world.store.put root.key
      { o with metadata := Finalizer.released o.metadata }).log .update root.key).tags
        = t.world.store.tags := Store.tags_insert_same hhere rfl rfl
  refine ⟨thinned.calm, drops.ledger.trans h.ledger, ?gone, ?kept, ?deleted⟩
  case gone =>
    intro key hkey
    refine (congrFun htags key).trans ?_
    rw [drops.tags, if_pos ((hdooms key).mpr hkey)]
  case kept =>
    intro key hkey
    refine (congrFun htags key).trans ?_
    rw [drops.tags, if_neg fun hmem => hkey ((hdooms key).mp hmem),
      Store.tags_of_objects h.objects]
  case deleted =>
    intro key p
    refine (Traced.deleted_push_of_ne ?_).trans ?_
    · -- the update of the root is no deletion
      intro k hr
      cases Request.call.inj hr
    · rw [thinned.deleted, or_iff_right (h.clean key p), drops.stored, h.objects, ← hdooms]
      constructor
      · rintro ⟨hp, hgone⟩
        rw [hp] at hgone
        exact ⟨by_contra fun hmem => absurd ((if_neg hmem).symm.trans hgone) nofun, hp⟩
      · exact fun ⟨hmem, hp⟩ => ⟨hp, if_pos hmem⟩

theorem traces_releaseRoot (name : ',' ∉ root.name.toList) (rootNs : ',' ∉ root.ns.toList)
    (calm : s.world.Calm) (clean : s.Clean) (filed : s.world.store.Filed)
    (scope : Roster String) :
    (releaseRoot root (some scope) s.world.capabilities).Traces s
      fun _ t => s.world.Released root scope t := by
  refine traces_request fun t ht htlog => ?_
  refine traces_request fun u hu hulog => ?_
  have hforget : u.world = { s.world with ledger := s.world.ledger.forget root.key } := by
    rw [hu, ht]
    rfl
  have hobjects : u.world.store.objects = s.world.store.objects := by
    rw [hforget]
  refine traces_get (by rw [hforget]; exact calm) fun x hx hxlog => ?_
  have hforgotten : s.world.Forgotten root x := by
    refine ⟨?_, ?_, ?_, ?_⟩
    · rw [hx, hforget]
      exact calm
    · rw [hx, hforget]
    · rw [hx]
      exact hobjects
    · exact ((clean.push htlog nofun).push hulog nofun).push hxlog nofun
  rw [hobjects]
  cases hstored : Table.get? s.world.store.objects root.key with
  | none =>
    refine hforgotten.released fun key => ?_
    rintro ⟨o, ho, _⟩
    exact absurd (hstored.symm.trans ho) nofun
  | some o =>
    show (if Finalizer.holds o.metadata = true then _ else Pass.done 0).Traces x _
    by_cases holds : Finalizer.holds o.metadata = true
    · rw [if_pos holds]
      exact traces_letGo name rootNs filed hforgotten hstored holds scope
    · rw [if_neg holds]
      refine hforgotten.released fun key => ?_
      rintro ⟨p, hp, hholds, _⟩
      obtain rfl := Option.some.inj (hstored.symm.trans hp)
      exact holds hholds

end Pass

/-- With cleanup on, a pass over a SchedulerInstall that is being deleted deletes exactly what is
    doomed, and forgets the root. -/
theorem Install.traces_release {w : World} {i : Install.Resource} {root : Root}
    (identity : (RootResource.install i).root = root) (name : ',' ∉ root.name.toList)
    (rootNs : ',' ∉ root.ns.toList) (calm : w.Calm) (filed : w.store.Filed) {settings : Settings}
    (on : settings.features.crossNamespaceCleanup = true)
    (deleted : i.metadata.deletionTimestamp.isSome = true) :
    ((RootResource.install i).pass settings).Traces ⟨w, []⟩ fun _ t => w.Released root
      ((i.spec.withDefaults root.name root.ns).linkedNamespaces root) t := by
  show (Pass.warned _ (Install.steps settings _ i)).Traces _ _
  rw [identity]
  refine Pass.Traces.warned ?_ root
  unfold Install.steps
  rw [if_pos deleted]
  unfold Pass.release
  rw [on]
  refine Pass.traces_request fun t ht htlog => ?_
  obtain ⟨v, log⟩ := t
  obtain rfl : v = w := ht
  have hclean := (Traced.clean_start v).push htlog nofun
  exact (Pass.traces_releaseRoot name rootNs calm hclean filed _).bind fun _ _ h => h

end Converge
