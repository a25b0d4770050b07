/-
  Converge.Proofs.Pass.HeldFirst — a root is held before children are linked to it.

  A pass with cleanup on reads the root before it writes any child.  Where it finds the root there,
  it sees the finalizer and the record of the linked namespaces on it, or writes them, and only
  then goes on to the children.  Where it finds no root it goes on as well: then children are
  linked to a root that is gone, and nothing is left to clean them up.

  Main statements:
    * `Install.held_first` — what is linked is on record, unless the root was missing.
    * `Install.not_held_first_rootless` — a pass over a missing root links children.
-/
import Converge.Proofs.Children.Homes
import Converge.Proofs.Pass.Exchanges
import Converge.Proofs.Pass.Footprint
import Converge.Proofs.Store.Answers

namespace Converge

/-! ## §1. Where a pass writes -/

/-- The key under which the request writes an object. -/
def Request.put? : Request → Option Key
  | .call (.create key _) => some key
  | .call (.update key _) => some key
  | .call (.updateStatus key _) => some key
  | _ => none

/-- The request writes in the namespace of the root, or in one of `linked`. -/
def Request.Within (root : Root) (linked : Roster String) (r : Request) : Prop :=
  ∀ key, r.put? = some key → key.ns = root.ns ∨ key.ns ∈ linked

theorem Request.within_of_put?_none {root : Root} {linked : Roster String} {r : Request}
    (h : r.put? = none) : r.Within root linked := by
  intro key hkey
  rw [h] at hkey
  exact absurd hkey nofun

/-- What is in the namespace of the root, or in one of `linked`. -/
def Part.homes (root : Root) (linked : Roster String) : Part where
  root := root
  owns key := key.ns = root.ns ∨ key.ns ∈ linked
  owns_root := .inl rfl

theorem Request.Stays.within {root : Root} {linked : Roster String} {r : Request}
    (h : r.Stays (Part.homes root linked)) : r.Within root linked := by
  intro key hkey
  cases r with
  | call c =>
    cases c with
    | create k o | update k o | updateStatus k o =>
      injection hkey with hkey
      rw [← hkey]
      exact h
    | get | list | delete => exact absurd hkey nofun
  | capabilities | isCancelled | clock | record | forget | linkedChildren | announce =>
    exact absurd hkey nofun

theorem Request.within_root {root : Root} {linked : Roster String} {r : Request}
    (h : r.put? = some root.key) : r.Within root linked := by
  intro key hkey
  rw [h] at hkey
  injection hkey with hkey
  exact .inl (congrArg Key.ns hkey.symm)

namespace Pass

theorem releases_within (root : Root) (linked : Roster String) :
    Releases (fun _ _ => True) (Request.Within root linked) root where
  get := Request.within_of_put?_none rfl
  capabilities := Request.within_of_put?_none rfl
  isCancelled := Request.within_of_put?_none rfl
  clock := Request.within_of_put?_none rfl
  record _ _ := Request.within_of_put?_none rfl
  forget := Request.within_of_put?_none rfl
  report _ := Request.within_root rfl
  known := Request.within_of_put?_none rfl
  update _ := Request.within_root rfl
  list _ _ _ _ _ _ := Request.within_of_put?_none rfl
  delete _ _ _ _ := Request.within_of_put?_none rfl

end Pass

/-! ## §2. A root that is held -/

/-- The finalizer is there and a namespace is on record: it is read from the record, or is among
    those that the record was written from. -/
structure Finalizer.Covers (m : Metadata) (ns : String) : Prop where
  holds : Finalizer.holds m = true
  named : ns ∈ Finalizer.recorded m ∨ ∃ all, ns ∈ all ∧
    Table.get? (m.annotations.getD []) Finalizer.recordKey = some (Finalizer.printRecord all)

/-- The version plays no part in it. -/
theorem Finalizer.Covers.stamped {m : Metadata} {ns : String} (h : Covers m ns)
    (version : Option String) : Covers { m with resourceVersion := version } ns :=
  ⟨h.holds, h.named⟩

/-- What holding a root for namespaces leaves covers them. -/
theorem Finalizer.covers_held (m : Metadata) {linked : Roster String} {ns : String}
    (hns : ns ∈ linked) : Covers (held m linked) ns := by
  rw [held_eq]
  by_cases hsubset : Roster.subset linked (recorded m) = true
  · rw [if_pos hsubset]
    refine ⟨holds_finalized m, .inl ?_⟩
    unfold recorded
    rw [annotations_finalized]
    exact (Roster.subset_eq_true_iff linked (recorded m)).mp hsubset ns hns
  · rw [if_neg hsubset]
    refine ⟨holds_finalized m, .inr ⟨Roster.union (recorded m) linked,
      (Roster.mem_union _ _ ns).mpr (.inr hns), ?_⟩⟩
    rw [Option.getD_some, Table.get?_insert, if_pos rfl]

namespace Exchange

/-- The root was read, and was not there. -/
def Misses (root : Root) (x : Exchange) : Prop :=
  x.request = .call (.get root.key) ∧ Table.get? x.store.objects root.key = none

instance (root : Root) (x : Exchange) : Decidable (x.Misses root) :=
  inferInstanceAs (Decidable (_ ∧ _))

/-- The root was read or updated, and what is stored then covers the namespace. -/
structure Shows (root : Root) (ns : String) (x : Exchange) : Prop where
  request : x.request = .call (.get root.key) ∨ ∃ o, x.request = .call (.update root.key o)
  granted : x.fault? = none
  stored : ∃ o, Table.get? x.storeAfter.objects root.key = some o ∧
    Finalizer.Covers o.metadata ns

/-- If the exchange writes outside the namespace of the root, then an earlier one showed the root
    held, with that namespace on record. -/
def Backed (root : Root) (x : Exchange) (earlier : List Exchange) : Prop :=
  ∀ key, x.request.put? = some key → key.ns ≠ root.ns → ∃ y ∈ earlier, y.Shows root key.ns

theorem shows_get {root : Root} {w : World} (calm : w.Calm) {o : Object}
    (stored : Table.get? w.store.objects root.key = some o) {ns : String}
    (covers : Finalizer.Covers o.metadata ns) : Shows root ns ⟨.call (.get root.key), w⟩ where
  request := .inl rfl
  granted := by
    rw [fault?_call calm]
    rfl
  stored := by
    rw [storeAfter_call calm]
    exact ⟨o, stored, covers⟩

theorem shows_update {root : Root} {w : World} (calm : w.Calm) {o reply : Object} {t : Store}
    (answered : w.store.perform (.update root.key o) = (.ok reply, t)) {ns : String}
    (covers : Finalizer.Covers o.metadata ns) : Shows root ns ⟨.call (.update root.key o), w⟩ where
  request := .inr ⟨o, rfl⟩
  granted := by rw [fault?_call calm, answered]
  stored := by
    obtain ⟨stored, _, _, written⟩ := Store.perform_update_ok answered
    rw [storeAfter_call calm, answered, written]
    refine ⟨w.store.stamped (Store.withStatusOf stored o), ?_, covers.stamped _⟩
    rw [Table.get?_insert, if_pos rfl]

end Exchange

/-- The root was found missing, or was seen held for the namespace. -/
def Vouched (root : Root) (log : List Exchange) (ns : String) : Prop :=
  (∃ y ∈ log, y.Misses root) ∨ ∃ y ∈ log, y.Shows root ns

theorem Vouched.later {root : Root} {log : List Exchange} {ns : String}
    (h : Vouched root log ns) (x : Exchange) : Vouched root (log ++ [x]) ns := by
  rcases h with ⟨y, hy, h⟩ | ⟨y, hy, h⟩
  · exact .inl ⟨y, List.mem_append_left _ hy, h⟩
  · exact .inr ⟨y, List.mem_append_left _ hy, h⟩

theorem Vouched.of_misses {root : Root} {x : Exchange} (log : List Exchange)
    (h : x.Misses root) (ns : String) : Vouched root (log ++ [x]) ns :=
  .inl ⟨x, List.mem_append_right _ (List.mem_singleton_self _), h⟩

theorem Vouched.of_shows {root : Root} {x : Exchange} {ns : String} (log : List Exchange)
    (h : x.Shows root ns) : Vouched root (log ++ [x]) ns :=
  .inr ⟨x, List.mem_append_right _ (List.mem_singleton_self _), h⟩

/-- What is written outside the namespace of the root is vouched for. -/
def Vouches (root : Root) (r : Request) (s : Traced) : Prop :=
  ∀ key, r.put? = some key → key.ns ≠ root.ns → Vouched root s.log key.ns

theorem vouches_of_within {root : Root} {linked : Roster String} {r : Request} {s : Traced}
    (within : r.Within root linked) (known : ∀ ns ∈ linked, Vouched root s.log ns) :
    Vouches root r s := by
  intro key hkey hne
  rcases within key hkey with h | h
  · exact absurd h hne
  · exact known key.ns h

/-- What is written at home needs nobody to vouch for it. -/
theorem vouches_of_home {root : Root} {r : Request} {s : Traced} (within : r.Within root []) :
    Vouches root r s :=
  vouches_of_within within fun _ h => absurd h List.not_mem_nil

namespace Pass

variable {s : Traced} {root : Root}

/-- Where the root is held for namespaces, they are vouched for afterwards. -/
theorem vouches_holdRoot (calm : s.world.Calm) (linked : Roster String) :
    (holdRoot root linked).Amid .traced (Vouches root) s
      (fun _ t => ∀ ns ∈ linked, Vouched root t.log ns) fun _ _ => True := by
  have hroot : ∀ (r : Request) t, r.put? = none ∨ r.put? = some root.key → Vouches root r t := by
    intro r t hr
    refine vouches_of_home ?_
    rcases hr with hr | hr
    · exact Request.within_of_put?_none hr
    · exact Request.within_root hr
  refine amid_traced_call calm (fun _ => hroot _ _ (.inl rfl)) ?_ fun _ _ _ _ _ => trivial
  intro w stored t hcalm hreply
  injection hreply with hreply ht
  injection hreply with hreply
  subst ht
  cases stored with
  | none =>
    have hmisses : Exchange.Misses root ⟨.call (.get root.key), w⟩ := ⟨rfl, hreply⟩
    exact fun ns _ => .of_misses _ hmisses ns
  | some o =>
    cases hm : Finalizer.hold? o.metadata linked with
    | none =>
      -- it is held already, as the read shows
      simp only [hm]
      intro ns hns
      have hcovers := Finalizer.covers_held o.metadata hns
      rw [Finalizer.held_of_none hm] at hcovers
      exact .of_shows _ (Exchange.shows_get hcalm hreply hcovers)
    | some m =>
      simp only [hm]
      obtain rfl := Finalizer.held_of_some hm
      refine amid_traced_call hcalm (fun _ => hroot _ _ (.inr rfl)) ?_ fun _ _ _ _ _ => trivial
      intro v p u hcalm hreply ns hns
      exact .of_shows _ (Exchange.shows_update hcalm hreply (Finalizer.covers_held o.metadata hns))

theorem vouches_holdIfLinked (calm : s.world.Calm) {settings : Settings}
    (on : settings.features.crossNamespaceCleanup = true) (linked : Roster String) :
    (holdIfLinked settings root linked).Amid .traced (Vouches root) s
      (fun _ t => ∀ ns ∈ linked, Vouched root t.log ns) fun _ _ => True := by
  unfold holdIfLinked
  cases linked with
  | nil =>
    rw [List.isEmpty_nil, Bool.not_true, Bool.and_false]
    exact fun ns hns => absurd hns List.not_mem_nil
  | cons ns rest =>
    rw [on]
    exact (vouches_holdRoot calm (ns :: rest)).bind fun _ _ h => amid_done h

/-- What was vouched for stays so, and suffices for a pass that writes nowhere else. -/
theorem vouches_within {α : Type} {p : Pass α} {linked : Roster String}
    (within : p.Only (Request.Within root linked))
    (known : ∀ ns ∈ linked, Vouched root s.log ns) :
    p.Amid .traced (Vouches root) s (fun _ _ => True) fun _ _ => True := by
  have hothers : Scene.traced.Keeps fun t => ∀ ns ∈ linked, Vouched root t.log ns := by
    rintro t ⟨w, log⟩ h ⟨rfl, _, _⟩
    exact h
  have hkept := within.amid (S := .traced) hothers known fun r t ht _ =>
    ⟨trivial, fun ns hns => (ht ns hns).later _⟩
  exact hkept.mono (fun _ _ h => vouches_of_within h.2 h.1) (fun _ _ _ => trivial)
    fun _ _ _ => trivial

/-- With cleanup on, a pass over a SchedulerInstall has the root vouch for what it links. -/
theorem vouches_install (calm : s.world.Calm) {settings : Settings}
    (on : settings.features.crossNamespaceCleanup = true) (r : Install.Resource) :
    (Install.steps settings root r).Amid .traced (Vouches root) s (fun _ _ => True)
      fun _ _ => True := by
  cases hdeleted : r.metadata.deletionTimestamp with
  | some time =>
    unfold Install.steps
    rw [hdeleted]
    -- a root that goes is let go in its own namespace, and nothing else is written
    exact vouches_within (only_release (releases_within root []) settings _)
      fun (ns : String) (h : ns ∈ []) => absurd h List.not_mem_nil
  | none =>
    rw [Install.steps_eq settings root hdeleted]
    cases hcheck : (r.spec.withDefaults root.name root.ns).validate with
    | error e => trivial
    | ok _ =>
      show ((Install.plan root r).steps settings).Amid .traced (Vouches root) s _ _
      refine Amid.bind (vouches_holdIfLinked calm on _) fun _ t known => ?_
      have owned : ∀ caps, ∀ c ∈ (Install.plan root r).children caps,
          (Part.homes root (Install.plan root r).linked).owns c.key :=
        fun caps c hc => Install.Spec.home_linked hcheck caps hc
      -- the children are at home or in linked namespaces, which are vouched for by now
      have hstays := Plan.stays_goOn (P := Part.homes root _) rfl owned settings
      exact vouches_within (hstays.mono fun _ => Request.Stays.within) known

end Pass

/-! ## §3. Runs -/

/-- A pass over a SchedulerInstall with cleanup on writes outside the namespace of the root, on any
    store that others may write to before each of its requests.  If no earlier read of the pass
    found the root missing, then the pass saw or wrote before, on the root as stored, the finalizer
    and a record of the namespace it writes in. -/
theorem Install.held_first {r : Install.Resource} {settings : Settings}
    (on : settings.features.crossNamespaceCleanup = true) {w w' : World} (calm : w.Calm)
    {log : List Exchange} {e : Except PassError NextLook}
    (run : ((RootResource.install r).pass settings).Among .traced ⟨w, []⟩ e ⟨w', log⟩)
    {earlier later : List Exchange} {x : Exchange} (place : log = earlier ++ x :: later)
    (found : ∀ y ∈ earlier, ¬ y.Misses (RootResource.install r).root) :
    x.Backed (RootResource.install r).root earlier := by
  let root := (RootResource.install r).root
  have hpass : ((RootResource.install r).pass settings).Amid .traced (Vouches root) ⟨w, []⟩
      (fun _ _ => True) fun _ _ => True := by
    refine (Pass.vouches_install calm on r).warned (fun _ _ => trivial) ?_
    intro e t u _ _ _
    exact ⟨vouches_of_home (Request.within_of_put?_none rfl), trivial⟩
  have hobeys : Traced.Obeys (fun x earlier => Vouches root x.request ⟨x.world, earlier⟩)
    ⟨w', log⟩ := hpass.obeys (fun _ _ h => h) run
  intro key hkey hne
  rcases hobeys earlier x later place key hkey hne with ⟨y, hy, hmisses⟩ | hshown
  · exact absurd hmisses (found y hy)
  · exact hshown

/-- A pass over a SchedulerInstall that links its proxy, and what it has exchanged in the end. -/
def linkedEnd (w : World) : Except PassError NextLook × Traced :=
  (linkedInstall.pass linkedSettings).run Scene.traced.handle ⟨w, []⟩

/-- The proxy of that SchedulerInstall. -/
def linkedProxy : Key := ⟨.service, "sims", "pool-proxy"⟩

/-- A list before, at and after one of its places. -/
theorem eq_take_cons_drop {α : Type} {l : List α} {n : Nat} {x : α}
    (h : l[n]? = some x) : l = l.take n ++ x :: l.drop (n + 1) := by
  obtain ⟨hn, rfl⟩ := List.getElem?_eq_some_iff.mp h
  rw [List.getElem_cons_drop, List.take_append_drop]

theorem linkedEnd_among (w : World) :
    (linkedInstall.pass linkedSettings).Among .traced ⟨w, []⟩ (linkedEnd w).1 (linkedEnd w).2 :=
  Pass.among_run (S := .traced) _ _

theorem held_first_linkedInstall :
    ∃ w' log e earlier x later,
      (linkedInstall.pass linkedSettings).Among .traced ⟨linkedWorld, []⟩ e ⟨w', log⟩ ∧
      log = earlier ++ x :: later ∧ x.request.put? = some linkedProxy ∧
      (∀ y ∈ earlier, ¬ y.Misses linkedInstall.root) ∧ x.Backed linkedInstall.root earlier := by
  have hproxy : (linkedEnd linkedWorld).2.log[5]?.map (·.request.put?)
      = some (some linkedProxy) := by decide +kernel
  have hfound : ∀ y ∈ (linkedEnd linkedWorld).2.log.take 5, ¬ y.Misses linkedInstall.root := by
    decide +kernel
  obtain ⟨x, hx, hput⟩ := Option.map_eq_some_iff.mp hproxy
  have place := eq_take_cons_drop hx
  have hcalm : linkedWorld.Calm := rfl
  exact ⟨_, _, _, _, _, _, linkedEnd_among linkedWorld, place, hput, hfound,
    Install.held_first rfl hcalm (linkedEnd_among linkedWorld) place hfound⟩

/-- In an empty store the pass creates the proxy all the same. -/
theorem Install.not_held_first_rootless :
    ∃ w' log e earlier x later,
      (linkedInstall.pass linkedSettings).Among .traced ⟨{}, []⟩ e ⟨w', log⟩ ∧
      log = earlier ++ x :: later ∧ x.request.put? = some linkedProxy ∧ x.fault? = none ∧
      ¬ x.Backed linkedInstall.root earlier := by
  have hproxy : (linkedEnd {}).2.log[4]?.map (fun x => (x.request.put?, x.fault?))
      = some (some linkedProxy, none) := by decide +kernel
  have hgone : ∀ y ∈ (linkedEnd {}).2.log.take 4,
      Table.get? y.storeAfter.objects linkedInstall.root.key = none := by decide +kernel
  obtain ⟨x, hx, hends⟩ := Option.map_eq_some_iff.mp hproxy
  obtain ⟨hput, hgranted⟩ := Prod.mk.inj hends
  have place := eq_take_cons_drop hx
  refine ⟨_, _, _, _, _, _, linkedEnd_among {}, place, hput, hgranted, ?_⟩
  intro backed
  obtain ⟨y, hy, hshows⟩ := backed linkedProxy hput (by decide +kernel)
  obtain ⟨o, ho, _⟩ := hshows.stored
  rw [hgone y hy] at ho
  exact absurd ho nofun

end Converge
