/-
  Converge.Proofs.Pass.Isolation — whether the cleanup of one root reaches what is linked to another.

  The namespace of a root is no part of the names of its children.  So two SchedulerInstalls of one
  name whose simulators share a namespace share their children there.  Each pass links them to its
  own root, while the ledger keeps them for the other root as well, and a deletion trusts the
  ledger.  An object that is linked to one root is therefore deleted with another one exactly if
  the other one has linked it before and has not been forgotten since.

  Main statements:
    * `Install.Accord.run` — ledger and links go by the passes done so far.
    * `Install.deletes_linked_iff` — when a deletion reaches what is linked to another root.
    * `Install.isolated_of_names` — with child names left to their defaults it takes two roots of
      one name.
-/
import Converge.Proofs.Children.Links
import Converge.Proofs.Children.Names
import Converge.Proofs.Pass.Deletions

namespace Converge

namespace Install

/-! ## §1. Passes that were done -/

/-- A pass over a SchedulerInstall that was done: the root object, what the cluster served, and
    whether the root was in the store. -/
structure Visit where
  resource : Resource
  caps : Capabilities
  there : Bool

namespace Visit

def root (v : Visit) : Root := (RootResource.install v.resource).root

/-- The root was being deleted. -/
def deletes (v : Visit) : Bool := v.resource.metadata.deletionTimestamp.isSome

/-- The children the spec asked for. -/
def children (v : Visit) : List Child :=
  (v.resource.spec.withDefaults v.root.name v.root.ns).children v.root v.caps

/-- The pass linked the object under the key to its root. -/
def Links (v : Visit) (key : Key) : Prop :=
  v.deletes = false ∧ key.ns ≠ v.root.ns ∧ ∃ c ∈ v.children, c.key = key

instance (v : Visit) (key : Key) : Decidable (v.Links key) :=
  inferInstanceAs (Decidable (_ ∧ _ ∧ _))

theorem children_proper (v : Visit) : ∀ c ∈ v.children, c.Proper := Spec.children_proper _ _ _

theorem children_hang (v : Visit) : ∀ c ∈ v.children, c.Hangs v.root := Spec.children_hang _ _ _

/-- What is linked is no root. -/
theorem Links.ne_root {v : Visit} {key : Key} (h : v.Links key) (root : Root) :
    key ≠ root.key := by
  obtain ⟨_, _, c, _, rfl⟩ := h
  exact c.key_ne_root root

end Visit

/-! Of several passes the latest comes first. -/

/-- A pass over the root has linked the object under the key, and no later one was a deletion or
    found the root missing. -/
def Claimed (root key : Key) : List Visit → Prop
  | [] => False
  | v :: earlier =>
    if v.root.key = root then
      v.deletes = false ∧ v.there = true ∧ (v.Links key ∨ Claimed root key earlier)
    else Claimed root key earlier

/-- The latest pass that has linked the object under the key was one over the root. -/
def LinkedLast (root key : Key) : List Visit → Prop
  | [] => False
  | v :: earlier => if v.Links key then v.root.key = root else LinkedLast root key earlier

instance instDecidableClaimed (root key : Key) : (vs : List Visit) → Decidable (Claimed root key vs)
  | [] => inferInstanceAs (Decidable False)
  | v :: earlier =>
    have := instDecidableClaimed root key earlier
    inferInstanceAs (Decidable (if v.root.key = root then _ else _))

instance instDecidableLinkedLast (root key : Key) :
    (vs : List Visit) → Decidable (LinkedLast root key vs)
  | [] => inferInstanceAs (Decidable False)
  | v :: earlier =>
    have := instDecidableLinkedLast root key earlier
    inferInstanceAs (Decidable (if v.Links key then _ else _))

theorem Claimed.exists_links {root key : Key} {vs : List Visit} (h : Claimed root key vs) :
    ∃ v ∈ vs, v.root.key = root ∧ v.Links key := by
  induction vs with
  | nil => exact h.elim
  | cons v vs ih =>
    have hlater : Claimed root key vs → ∃ u ∈ v :: vs, u.root.key = root ∧ u.Links key := by
      intro h
      obtain ⟨u, hu, hlinks⟩ := ih h
      exact ⟨u, List.mem_cons_of_mem _ hu, hlinks⟩
    unfold Claimed at h
    split at h
    · rename_i hroot
      exact h.2.2.elim (fun links => ⟨v, List.mem_cons_self, hroot, links⟩) hlater
    · exact hlater h

theorem LinkedLast.exists_links {root key : Key} {vs : List Visit} (h : LinkedLast root key vs) :
    ∃ v ∈ vs, v.root.key = root ∧ v.Links key := by
  induction vs with
  | nil => exact h.elim
  | cons v vs ih =>
    unfold LinkedLast at h
    split at h
    · rename_i links
      exact ⟨v, List.mem_cons_self, h, links⟩
    · obtain ⟨u, hu, hlinks⟩ := ih h
      exact ⟨u, List.mem_cons_of_mem _ hu, hlinks⟩

theorem Claimed.foreign {root key : Key} {vs : List Visit} (h : Claimed root key vs) :
    key.ns ≠ root.ns := by
  obtain ⟨v, _, rfl, _, hforeign, _⟩ := h.exists_links
  exact hforeign

theorem LinkedLast.foreign {root key : Key} {vs : List Visit} (h : LinkedLast root key vs) :
    key.ns ≠ root.ns := by
  obtain ⟨v, _, rfl, _, hforeign, _⟩ := h.exists_links
  exact hforeign

theorem Claimed.earlier {root key : Key} {v : Visit} {vs : List Visit}
    (h : Claimed root key (v :: vs)) (other : ¬ v.Links key) : Claimed root key vs := by
  unfold Claimed at h
  split at h
  · exact h.2.2.resolve_left other
  · exact h

theorem linkedLast_of_links {root key : Key} {v : Visit} {vs : List Visit} (h : v.Links key) :
    LinkedLast root key (v :: vs) ↔ v.root.key = root := by
  rw [LinkedLast, if_pos h]

theorem linkedLast_of_not_links {root key : Key} {v : Visit} {vs : List Visit}
    (h : ¬ v.Links key) : LinkedLast root key (v :: vs) ↔ LinkedLast root key vs := by
  rw [LinkedLast, if_neg h]

/-! ## §2. Runs -/

/-- Others have acted: they may have written what they like to the two roots, and have changed or
    deleted other objects, but created none and left alone all links to `b`.  What the cluster
    serves may have changed, and time may have passed. -/
structure Meanwhile (a b : Root) (w v : World) : Prop where
  calm : v.Calm
  ledger : v.ledger = w.ledger
  filed : v.store.Filed
  links : ∀ key, key ≠ a.key → key ≠ b.key → ∀ o, Table.get? v.store.objects key = some o →
    ∃ p, Table.get? w.store.objects key = some p ∧ (b.Links o ↔ b.Links p)

/-- The pass over a SchedulerInstall in a world, as one that was done. -/
def Visit.of (i : Resource) (w : World) : Visit where
  resource := i
  caps := w.capabilities
  there := Table.has w.store.objects (RootResource.install i).root.key

theorem Visit.there_of {i : Resource} {w : World} :
    (Visit.of i w).there = true
      ↔ w.store.tags (RootResource.install i).root.key ≠ none := by
  show (Table.get? w.store.objects _).isSome = true ↔ Option.map _ _ ≠ none
  cases Table.get? w.store.objects (RootResource.install i).root.key <;> simp

/-- Passes over two SchedulerInstalls were done, in any order and with any specs, with cleanup on;
    others may have acted between them. -/
inductive Run (a b : Root) : World → List Visit → World → Prop
  | start (w : World) : Run a b w [] w
  | others {w u v : World} {vs : List Visit} : Run a b w vs u → Meanwhile a b u v → Run a b w vs v
  | pass {w u v : World} {vs : List Visit} {i : Resource} {settings : Settings} {look : NextLook} :
      Run a b w vs u → settings.features.crossNamespaceCleanup = true →
      ((RootResource.install i).root.key = a.key ∨ (RootResource.install i).root.key = b.key) →
      ((RootResource.install i).pass settings).run World.handle u = (.ok look, v) →
      Run a b w (Visit.of i u :: vs) v

end Install

/-! ## §3. What one pass leaves -/

/-- No pass keeps two objects under one key. -/
theorem Pass.once_run {α : Type} (p : Pass α) {w : World} (calm : w.Calm)
    (once : (Table.keys w.store.objects).Nodup) :
    (Table.keys (p.run World.handle w).2.store.objects).Nodup := by
  induction p generalizing w with
  | done a => exact once
  | fail e => exact once
  | ask r next ih =>
    show (Table.keys ((next (World.handle r w).1).run World.handle
      (World.handle r w).2).2.store.objects).Nodup
    cases r with
    | call c =>
      rw [World.handle_call calm]
      exact ih _ calm (Store.once_perform once c)
    | capabilities | isCancelled | clock | record | forget | linkedChildren | announce =>
      exact ih _ calm once

/-- What a plan notes for its root, if the root is there, and for others. -/
theorem Plan.children_noted {τ : Type} (p : Plan τ) (caps : Capabilities) (T : Tagging)
    (l : Ledger) (root : Key) :
    (p.noted caps T l).children root
      = if p.root.key = root then
          if T root = none then [] else (l.notedAll root (p.children caps)).children root
        else l.children root := by
  unfold noted
  by_cases hroot : p.root.key = root
  · subst hroot
    rw [if_pos rfl]
    split
    · rw [Ledger.children_forget, if_pos rfl]
    · rfl
  · rw [if_neg hroot]
    split
    · rw [Ledger.children_forget, if_neg hroot, Ledger.children_notedAll_of_ne _ hroot]
    · rw [Ledger.children_notedAll_of_ne _ hroot]

/-- Whatever the ledger knows of a root that is not there, or not owned by it, is in order. -/
theorem Plan.homed_noted {τ : Type} (p : Plan τ) {caps : Capabilities}
    (hang : ∀ c ∈ p.children caps, c.Hangs p.root) (T : Tagging) {l : Ledger} {root : Key}
    (homed : l.Homed root) : (p.noted caps T l).Homed root := by
  intro e he
  rw [p.children_noted] at he
  split at he
  · rename_i hroot
    subst hroot
    split at he
    · cases he
    · exact homed.notedAll (fun c hc => (hang c hc).isOwned) e he
  · exact homed e he

namespace Install

/-- A pass that is no deletion, if it is done. -/
theorem yields_pass {w : World} (calm : w.Calm) {i : Resource} (settings : Settings)
    (alive : (Visit.of i w).deletes = false) :
    ((RootResource.install i).pass settings).Yields w fun _ v =>
      w.Comes ((plan (Visit.of i w).root i).noted w.capabilities w.store.tags w.ledger)
        (w.store.tags.lay (Visit.of i w).children) v := by
  have hnone : i.metadata.deletionTimestamp = none := by
    simpa [Visit.deletes, Visit.of] using alive
  refine Pass.Ends.warned _ ?_ fun _ _ _ _ => trivial
  show (steps settings _ i).Yields w _
  rw [steps_eq settings _ hnone]
  cases (i.spec.withDefaults _ _).validate with
  | error e => trivial
  | ok _ =>
    exact (plan (Visit.of i w).root i).yields_steps calm settings fun c _ => c.key_ne_root _

/-! ## §4. Ledger and links go by the passes done -/

end Install

/-- The labels that link to the root come back from a selector. -/
structure Root.Writable (root : Root) : Prop where
  name : ',' ∉ root.name.toList
  ns : ',' ∉ root.ns.toList

theorem Root.Writable.of_key {a b : Root} (h : a.Writable) (key : b.key = a.key) :
    b.Writable := by
  refine ⟨?_, ?_⟩
  · rw [show b.name = a.name from congrArg Key.name key]
    exact h.name
  · rw [show b.ns = a.ns from congrArg Key.ns key]
    exact h.ns

/-- Links go by the key of the root. -/
theorem Tags.Links.of_key {a b : Root} {t : Tags} (h : t.Links a) (kind : a.kind = b.kind)
    (key : a.key = b.key) : t.Links b := by
  obtain ⟨hname, hns⟩ := Tags.links_iff.mp h
  rw [show a.name = b.name from congrArg Key.name key, kind] at hname
  rw [show a.ns = b.ns from congrArg Key.ns key, kind] at hns
  exact Tags.links_iff.mpr ⟨hname, hns⟩

namespace Install

/-- The ledger knows what passes over `a` have claimed, and of that exactly what was linked to `b`
    last is linked to `b`. -/
structure Accord (a b : Root) (vs : List Visit) (w : World) : Prop where
  calm : w.Calm
  filed : w.store.Filed
  homed : w.ledger.Homed a.key
  known : ∀ key, key.ns ≠ a.ns →
    (Table.has (w.ledger.children a.key) key = true ↔ Claimed a.key key vs)
  linked : ∀ key, Claimed a.key key vs → ∀ t, w.store.tags key = some t →
    (t.Links b ↔ LinkedLast b.key key vs)

namespace Accord

variable {a b : Root} {vs : List Visit} {w v : World}

/-- A controller that was just started knows nothing of the root. -/
theorem start (calm : w.Calm) (filed : w.store.Filed) (fresh : w.ledger.children a.key = []) :
    Accord a b [] w where
  calm := calm
  filed := filed
  homed := Ledger.homed_of_children fresh
  known key _ := by
    rw [fresh]
    exact ⟨fun h => absurd h Bool.false_ne_true, False.elim⟩
  linked _ claimed := claimed.elim

theorem others (h : Accord a b vs w) (meanwhile : Meanwhile a b w v) : Accord a b vs v where
  calm := meanwhile.calm
  filed := meanwhile.filed
  homed := by
    unfold Ledger.Homed
    rw [meanwhile.ledger]
    exact h.homed
  known := by
    rw [meanwhile.ledger]
    exact h.known
  linked := by
    intro key claimed t ht
    obtain ⟨o, ho, rfl⟩ := Option.map_eq_some_iff.mp ht
    -- what is claimed is a child, and so none of the roots
    obtain ⟨u, _, _, links⟩ := claimed.exists_links
    obtain ⟨p, hp, hsame⟩ := meanwhile.links key (links.ne_root a) (links.ne_root b) o ho
    exact Iff.trans hsame (h.linked key claimed p.tags (Store.tags_of_get? hp))

/-- The ledger after a pass that is no deletion. -/
theorem known_noted {x : Visit} (alive : x.deletes = false) {T : Tagging}
    (there : x.there = true ↔ T x.root.key ≠ none) {l : Ledger}
    (known : ∀ key, key.ns ≠ a.ns →
      (Table.has (l.children a.key) key = true ↔ Claimed a.key key vs))
    {key : Key} (foreign : key.ns ≠ a.ns) :
    Table.has (((plan x.root x.resource).noted x.caps T l).children a.key) key = true
      ↔ Claimed a.key key (x :: vs) := by
  rw [Plan.children_noted]
  unfold Claimed
  by_cases hroot : x.root.key = a.key
  · rw [if_pos hroot, if_pos (show (plan x.root x.resource).root.key = a.key from hroot)]
    rw [hroot] at there
    by_cases hthere : T a.key = none
    · rw [if_pos hthere]
      exact ⟨fun h => absurd h Bool.false_ne_true, fun h => absurd hthere (there.mp h.2.1)⟩
    · have hns : key.ns ≠ x.root.ns := by
        rw [show x.root.ns = a.ns from congrArg Key.ns hroot]
        exact foreign
      have hlinks : x.Links key ↔ ∃ c ∈ x.children, c.key = key :=
        ⟨fun h => h.2.2, fun h => ⟨alive, hns, h⟩⟩
      rw [if_neg hthere, Ledger.has_notedAll, known key foreign, hlinks]
      exact ⟨fun h => ⟨alive, there.mpr hthere, h⟩, fun h => h.2.2⟩
  · rw [if_neg hroot, if_neg (show ¬ (plan x.root x.resource).root.key = a.key from hroot)]
    exact known key foreign

/-- The links after a pass that is no deletion. -/
theorem linked_lay {x : Visit} (alive : x.deletes = false) (kind : b.kind = .schedulerInstall)
    (root : x.root.key = a.key ∨ x.root.key = b.key) {T : Tagging}
    (linked : ∀ key, Claimed a.key key vs → ∀ t, T key = some t →
      (t.Links b ↔ LinkedLast b.key key vs))
    {key : Key} (claimed : Claimed a.key key (x :: vs)) {t : Tags}
    (ht : T.lay x.children key = some t) : t.Links b ↔ LinkedLast b.key key (x :: vs) := by
  by_cases hlinks : x.Links key
  · -- the object is linked to the root of this pass
    obtain ⟨u, hu, hroot⟩ := Tagging.links_lay (T := T) x.children_proper x.children_hang
      hlinks.2.1 hlinks.2.2
    obtain rfl := Option.some.inj (ht.symm.trans hu)
    rw [linkedLast_of_links hlinks]
    exact ⟨fun hb => hroot.key_eq kind.symm hb, fun key => hroot.of_key kind.symm key⟩
  · rw [linkedLast_of_not_links hlinks]
    have hbefore := claimed.earlier hlinks
    by_cases child : ∃ c ∈ x.children, c.key = key
    · -- a child at home, and so of `b`: it was not linked to `b` before, and is not now
      have home : key.ns = x.root.ns := by
        by_contra hforeign
        exact hlinks ⟨alive, hforeign, child⟩
      have hb : key.ns = b.ns := by
        rcases root with h | h
        · exact absurd (home.trans (congrArg Key.ns h)) hbefore.foreign
        · exact home.trans (congrArg Key.ns h)
      refine ⟨fun links => ?_, fun last => absurd hb last.foreign⟩
      obtain ⟨u, hu, hlinksu⟩ :=
        Tagging.links_of_lay x.children_proper x.children_hang home ⟨t, ht, links⟩
      exact (linked key hbefore u hu).mp hlinksu
    · rw [Tagging.lay_of_not_mem T fun c hc hkey => child ⟨c, hc, hkey⟩] at ht
      exact linked key hbefore t ht

variable {i : Resource} {settings : Settings} {look : NextLook}

theorem pass (h : Accord a b vs w) (kind : b.kind = .schedulerInstall)
    (root : (Visit.of i w).root.key = a.key ∨ (Visit.of i w).root.key = b.key)
    (alive : (Visit.of i w).deletes = false)
    (ran : ((RootResource.install i).pass settings).run World.handle w = (.ok look, v)) :
    Accord a b (Visit.of i w :: vs) v := by
  have comes := (yields_pass h.calm settings alive).of_ok ran
  refine ⟨comes.calm, ⟨?once, ?named⟩, ?homed, ?known, ?linked⟩
  case once =>
    have honce := Pass.once_run ((RootResource.install i).pass settings) h.calm h.filed.once
    rw [ran] at honce
    exact honce
  case named =>
    rw [← Store.named_tags, comes.tags]
    exact (Store.named_tags.mpr h.filed.named).lay _
  case homed =>
    rw [comes.ledger]
    exact Plan.homed_noted _ (Visit.of i w).children_hang _ h.homed
  case known =>
    intro key foreign
    rw [comes.ledger]
    exact known_noted (x := Visit.of i w) alive Visit.there_of h.known foreign
  case linked =>
    intro key claimed t ht
    rw [comes.tags] at ht
    exact linked_lay alive kind root h.linked claimed ht

theorem deletion (h : Accord a b vs w) (writable : (Visit.of i w).root.Writable)
    (on : settings.features.crossNamespaceCleanup = true)
    (deleted : (Visit.of i w).deletes = true)
    (ran : ((RootResource.install i).pass settings).run World.handle w = (.ok look, v)) :
    Accord a b (Visit.of i w :: vs) v := by
  have hidentity : (RootResource.install i).root = (Visit.of i w).root := rfl
  obtain ⟨_, hrun, released⟩ := (traces_release hidentity writable.name writable.ns h.calm
    h.filed on deleted).exists_run
  have honce := Pass.once_run ((RootResource.install i).pass settings) h.calm h.filed.once
  rw [ran] at honce
  generalize ((RootResource.install i).pass settings).trace w = traced at hrun released
  obtain ⟨_, rfl⟩ := Prod.mk.inj (hrun.symm.trans ran)
  have hlinks : ∀ key, ¬ (Visit.of i w).Links key := by
    rintro key ⟨hdeletes, _⟩
    rw [deleted] at hdeletes
    exact absurd hdeletes nofun
  refine ⟨released.calm, ⟨?once, ?named⟩, ?homed, ?known, ?linked⟩
  case once => exact honce
  case named =>
    rw [← Store.named_tags]
    exact fun key t ht => Store.named_tags.mpr h.filed.named key t (released.tags ht)
  case homed =>
    intro e he
    rw [released.ledger, Ledger.children_forget] at he
    split at he
    · cases he
    · exact h.homed e he
  case known =>
    intro key foreign
    rw [released.ledger, Ledger.children_forget]
    unfold Claimed
    by_cases hroot : (Visit.of i w).root.key = a.key
    · rw [if_pos hroot, if_pos hroot]
      refine ⟨fun h => absurd h Bool.false_ne_true, fun h => ?_⟩
      exact absurd (deleted.symm.trans h.1) nofun
    · rw [if_neg hroot, if_neg hroot]
      exact h.known key foreign
  case linked =>
    intro key claimed t ht
    rw [linkedLast_of_not_links (hlinks key)]
    exact h.linked key (claimed.earlier (hlinks key)) t (released.tags ht)

/-- After any run. -/
theorem run (kind : b.kind = .schedulerInstall) (ha : a.Writable) (hb : b.Writable)
    (fresh : Accord a b [] w) (run : Run a b w vs v) : Accord a b vs v := by
  -- by induction on the run; each pass is a deletion or not
  induction run with
  | start => exact fresh
  | others _ meanwhile ih => exact ih.others meanwhile
  | pass earlier on root ran ih =>
    rename_i u _ _ i _ _
    cases deleted : (Visit.of i u).deletes with
    | false => exact ih.pass kind root deleted ran
    | true =>
      have writable : (Visit.of i u).root.Writable := root.elim ha.of_key hb.of_key
      exact ih.deletion writable on deleted ran

end Accord

/-! ## §5. What a deletion reaches -/

theorem kind_eq {a b : Root} {i : Resource} (identity : (RootResource.install i).root = a)
    (kind : b.kind = .schedulerInstall) : a.kind = b.kind := by
  rw [← identity, kind]
  rfl

/-- What goes with `a` although it is linked to `b` was claimed for `a` before it was linked to `b`
    last. -/
theorem Accord.claimed {a b : Root} {vs : List Visit} {u : World} (accord : Accord a b vs u)
    (kind : a.kind = b.kind) (apart : a.key ≠ b.key) {scope : Roster String} {key : Key}
    {o : Object} (dooms : u.Dooms a scope key) (stored : Table.get? u.store.objects key = some o)
    (links : b.Links o) : Claimed a.key key vs ∧ LinkedLast b.key key vs := by
  obtain ⟨_, _, _, foreign, _, source⟩ := dooms
  have hknown : key ∈ u.ledger.linked a.key := by
    -- what the selector of `a` finds is linked to `a`, and so not to `b`
    refine source.resolve_right ?_
    rintro ⟨_, _, q, hq, linksq⟩
    obtain rfl := Option.some.inj (stored.symm.trans hq)
    exact apart (Tags.Links.key_eq (t := o.tags) kind linksq links)
  have hclaimed := (accord.known key foreign).mp
    ((Ledger.mem_linked_iff accord.homed).mp hknown).1
  exact ⟨hclaimed, (accord.linked key hclaimed o.tags (Store.tags_of_get? stored)).mp links⟩

/-- After any run, the deletion of one SchedulerInstall deletes an object that is linked to another
    one exactly if the object is there and of a kind that is served, the root holds the finalizer,
    and a pass over it has claimed the object before a pass over the other one linked it last. -/
theorem deletes_linked_iff {a b : Root} {w u : World} {vs : List Visit} {i : Resource}
    {settings : Settings} (identity : (RootResource.install i).root = a)
    (kind : b.kind = .schedulerInstall) (apart : a.key ≠ b.key) (ha : a.Writable)
    (hb : b.Writable) (calm : w.Calm) (filed : w.store.Filed)
    (fresh : w.ledger.children a.key = []) (run : Run a b w vs u)
    (on : settings.features.crossNamespaceCleanup = true)
    (deleted : i.metadata.deletionTimestamp.isSome = true) (key : Key) :
    (∃ o, (((RootResource.install i).pass settings).trace u).Deleted key o ∧ b.Links o)
      ↔ u.store.HoldsRoot a ∧ Table.has u.store.objects key = true ∧
        u.capabilities.supports key.kind = true ∧ Claimed a.key key vs ∧
        LinkedLast b.key key vs := by
  have accord := Accord.run kind ha hb (.start calm filed fresh) run
  obtain ⟨_, _, released⟩ :=
    (traces_release identity ha.name ha.ns accord.calm accord.filed on deleted).exists_run
  simp only [released.deleted]
  constructor
  · rintro ⟨o, ⟨dooms, ho⟩, links⟩
    have hclaimed := accord.claimed (kind_eq identity kind) apart dooms ho links
    obtain ⟨p, hp, holds, _, served, _⟩ := dooms
    exact ⟨⟨p, hp, holds⟩, Table.has_iff.mpr ⟨o, ho⟩, served, hclaimed⟩
  · rintro ⟨⟨p, hp, holds⟩, there, served, claimed, last⟩
    obtain ⟨o, ho⟩ := Table.has_iff.mp there
    have hknown : key ∈ u.ledger.linked a.key := (Ledger.mem_linked_iff accord.homed).mpr
      ⟨(accord.known key claimed.foreign).mpr claimed, claimed.foreign⟩
    exact ⟨o, ⟨⟨p, hp, holds, claimed.foreign, served, .inl hknown⟩, ho⟩,
      (accord.linked key claimed o.tags (Store.tags_of_get? ho)).mpr last⟩

/-- With child names left to their defaults, the deletion of one SchedulerInstall deletes nothing
    that is linked to one of another name. -/
theorem isolated_of_names {a b : Root} {w u : World} {vs : List Visit} {i : Resource}
    {settings : Settings} (identity : (RootResource.install i).root = a)
    (kind : b.kind = .schedulerInstall) (apart : a.name ≠ b.name) (ha : a.Writable)
    (hb : b.Writable) (calm : w.Calm) (filed : w.store.Filed)
    (fresh : w.ledger.children a.key = []) (run : Run a b w vs u)
    (names : ∀ v ∈ vs, v.resource.spec.NamesLeft)
    (on : settings.features.crossNamespaceCleanup = true)
    (deleted : i.metadata.deletionTimestamp.isSome = true) {key : Key} {o : Object}
    (goes : (((RootResource.install i).pass settings).trace u).Deleted key o) : ¬ b.Links o := by
  intro links
  have accord := Accord.run kind ha hb (.start calm filed fresh) run
  obtain ⟨_, _, released⟩ :=
    (traces_release identity ha.name ha.ns accord.calm accord.filed on deleted).exists_run
  obtain ⟨dooms, ho⟩ := (released.deleted key o).mp goes
  have happart : a.key ≠ b.key := fun hkey => apart (congrArg Key.name hkey)
  obtain ⟨hclaimed, hlast⟩ := accord.claimed (kind_eq identity kind) happart dooms ho links
  -- both roots have asked for a child with this key, and so they have one name
  obtain ⟨v, hv, hroot, _, _, c, hc, rfl⟩ := hclaimed.exists_links
  obtain ⟨x, hx, hother, _, _, d, hd, hkey⟩ := hlast.exists_links
  have hname : v.root.name = x.root.name :=
    RootSpec.name_eq_of_key (s := .install v.resource.spec) (t := .install x.resource.spec) rfl
      (names v hv) (names x hx) hc hd hkey.symm
  exact apart ((congrArg Key.name hroot).symm.trans (hname.trans (congrArg Key.name hother)))

/-- The SchedulerInstall `pool` of a namespace, with its simulators in another one. -/
def poolInstall (ns : String) (deleted : Option String) : Resource where
  metadata := { name := some "pool", ns := some ns, deletionTimestamp := deleted }
  spec := { simulatorNamespace := "sims" }

/-- The roots of two of them. -/
def poolRoot (ns : String) : Root := (RootResource.install (poolInstall ns none)).root

/-- A store with these two roots and nothing else. -/
def poolWorld : World where
  store := { objects := ["default", "other"].map fun ns => ((poolRoot ns).key,
    { metadata := { name := some "pool", ns := some ns }, data := .obj [] }) }
  clock := "2024-05-01T00:00:00Z"

/-- The world after a pass. -/
def afterPass (w : World) (i : Resource) : World :=
  (((RootResource.install i).pass linkedSettings).run World.handle w).2

/-- A pass over each of the two roots was done. -/
def bothPassed : World :=
  afterPass (afterPass poolWorld (poolInstall "default" none)) (poolInstall "other" none)

theorem poolWorld_filed : poolWorld.store.Filed :=
  Store.filed_of_entries (by decide +kernel) (by decide +kernel)

theorem run_bothPassed : Run (poolRoot "default") (poolRoot "other") poolWorld
    [Visit.of (poolInstall "other" none) (afterPass poolWorld (poolInstall "default" none)),
      Visit.of (poolInstall "default" none) poolWorld] bothPassed := by
  have hdone : ∀ i w, (((RootResource.install i).pass linkedSettings).run World.handle w).1
        = .ok (.after linkedSettings.requeueSecs) →
      ((RootResource.install i).pass linkedSettings).run World.handle w
        = (.ok (.after linkedSettings.requeueSecs), afterPass w i) := fun _ _ h => Prod.ext h rfl
  refine .pass (.pass (.start _) rfl (.inl rfl) (hdone _ _ ?_)) rfl (.inr rfl) (hdone _ _ ?_)
  · decide +kernel
  · decide +kernel

/-- The proxy service that both pools want is deleted with the one that linked it first. -/
theorem deletes_linked_iff_pools :
    ∃ o, (((RootResource.install (poolInstall "default" (some "2024-05-03T00:00:00Z"))).pass
        linkedSettings).trace bothPassed).Deleted ⟨.service, "sims", "pool-proxy"⟩ o ∧
      (poolRoot "other").Links o := by
  have hcalm : poolWorld.Calm := rfl
  refine (deletes_linked_iff (i := poolInstall "default" (some "2024-05-03T00:00:00Z")) rfl rfl
    (by decide) ⟨by decide, by decide⟩ ⟨by decide, by decide⟩ hcalm poolWorld_filed rfl
    run_bothPassed rfl rfl _).mpr ⟨?held, ?there, ?served, ?claimed, ?last⟩
  case held => decide +kernel
  case there => decide +kernel
  case served => decide +kernel
  case claimed => decide +kernel
  case last => decide +kernel

/-- Names left to their defaults do not keep two roots of one name apart: an object that is linked
    to one may be deleted with the other. -/
theorem not_isolated_pools :
    ¬ ∀ (a b : Root) (w u : World) (vs : List Visit) (i : Resource) (settings : Settings)
      (key : Key) (o : Object), (RootResource.install i).root = a → b.kind = .schedulerInstall →
      a.key ≠ b.key → w.Calm → w.store.Filed → w.ledger = [] → Run a b w vs u →
      (∀ v ∈ vs, v.resource.spec.NamesLeft) → settings.features.crossNamespaceCleanup = true →
      i.metadata.deletionTimestamp.isSome = true →
      (((RootResource.install i).pass settings).trace u).Deleted key o → ¬ b.Links o := by
  intro all
  have hdeleted : ∃ x ∈ (((RootResource.install (poolInstall "default"
      (some "2024-05-03T00:00:00Z"))).pass linkedSettings).trace bothPassed).log,
      x.request = .call (.delete ⟨.service, "sims", "pool-proxy"⟩) ∧
        ∃ o ∈ Table.get? x.store.objects ⟨.service, "sims", "pool-proxy"⟩,
          (poolRoot "other").Links o := by
    decide +kernel
  have hnames : ∀ ns deleted, (poolInstall ns deleted).spec.NamesLeft := fun _ _ =>
    ⟨rfl, nofun, nofun, nofun⟩
  obtain ⟨x, hx, hdelete, o, ho, hlinks⟩ := hdeleted
  refine all (poolRoot "default") (poolRoot "other") poolWorld bothPassed _
    (poolInstall "default" (some "2024-05-03T00:00:00Z")) linkedSettings
    ⟨.service, "sims", "pool-proxy"⟩ o rfl rfl (by decide) rfl poolWorld_filed rfl run_bothPassed ?_
    rfl rfl ⟨x, hx, hdelete, ho⟩ hlinks
  simp only [List.forall_mem_cons]
  exact ⟨hnames _ _, hnames _ _, fun _ h => absurd h List.not_mem_nil⟩

end Install

end Converge
