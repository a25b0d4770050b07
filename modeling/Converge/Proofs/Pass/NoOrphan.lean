/-
  Converge.Proofs.Pass.NoOrphan — cleanup leaves no linked object behind.

  With cleanup on, a pass puts a namespace on record before it links anything there, and a deletion
  deletes what it finds in every namespace on record before it lets the root go.  Between passes
  nothing but the record counts, so that neither an edit of the spec nor a fault nor a restart of
  the controller loses a namespace.

  Main statements:
    * `Pass.safe_goOn`, `Pass.safe_release` — every request of a pass keeps the account.
    * `Install.no_orphan` — on every course of events what is linked is on record, and nothing is
      linked any more when the root is let go.
-/
import Converge.Proofs.Children.Homes
import Converge.Proofs.Pass.Footprint
import Converge.Proofs.Pass.Record
import Mathlib.Logic.Relation

namespace Converge

/-! ## §1. Worlds in which the root accounts for its links -/

/-- Every kind is served. -/
def World.ServesAll (w : World) : Prop := ∀ k, w.capabilities.supports k = true

/-- Others act.  They may write to the store, but leave alone the finalizers of the root, its
    record and all links to it; they may have calls struck by faults or the controller shut down,
    or note children for other roots; and time may pass. -/
structure World.Spares (root : Root) (w v : World) : Prop where
  store : w.store.Spares root v.store
  alone : w.Alone → v.Alone
  served : w.ServesAll → v.ServesAll

/-- A world in which others spare a root. -/
def Scene.sparing (root : Root) : Scene World where
  handle := World.handle
  others := World.Spares root
  still _ := ⟨.of_objects rfl, id, id⟩
  further h g := ⟨h.store.trans g.store, g.alone ∘ h.alone, g.served ∘ h.served⟩

/-- The root accounts for what is linked to it, faults write nothing, and every kind is served. -/
structure World.Accounts (root : Root) (w : World) : Prop where
  store : w.store.Accounts root
  alone : w.Alone
  served : w.ServesAll

theorem World.Spares.accounts {root : Root} {w v : World} (h : w.Spares root v)
    (accounts : w.Accounts root) : v.Accounts root :=
  ⟨h.store.accounts accounts.store, h.alone accounts.alone, h.served accounts.served⟩

/-- The account is kept, and a root that is let go has no links left. -/
structure Store.Safe (root : Root) (s t : Store) : Prop where
  accounts : t.Accounts root
  released : s.HoldsRoot root → t.HoldsRoot root ∨ t.Unlinked root

theorem Store.Accounts.safe {root : Root} {s t : Store} (h : t.Accounts root)
    (marks : s.KeepsMarks root t) : s.Safe root t := ⟨h, fun holds => .inl (marks.holdsRoot holds)⟩

theorem Store.Spares.safe {root : Root} {s t : Store} (h : s.Spares root t)
    (accounts : s.Accounts root) : s.Safe root t := (h.accounts accounts).safe h.marks

/-- A call that is refused changes nothing, so that only an answer counts. -/
theorem Store.Accounts.safe_of_ok {root : Root} {s : Store} (accounts : s.Accounts root)
    {c : StoreCall} (answered : ∀ a t, s.perform c = (.ok a, t) → s.Safe root t) :
    s.Safe root (s.perform c).2 := by
  generalize hreply : s.perform c = reply
  obtain ⟨reply, t⟩ := reply
  cases reply with
  | error e =>
    rw [Store.perform_error hreply]
    exact ⟨accounts, .inl⟩
  | ok a => exact answered a t hreply

/-- What becomes of the world by a request is safe. -/
structure Request.Safe (root : Root) (r : Request) (w : World) : Prop where
  accounts : (World.handle r w).2.Accounts root
  released : w.store.HoldsRoot root →
    (World.handle r w).2.store.HoldsRoot root ∨ (World.handle r w).2.store.Unlinked root

/-- Whatever fault strikes it, a call is safe if the store makes it so. -/
theorem World.Accounts.safe_call {root : Root} {w : World} (accounts : w.Accounts root)
    {c : StoreCall} (safe : w.store.Safe root (w.store.perform c).2) :
    (Request.call c).Safe root w := by
  obtain ⟨hfollows, _, hend⟩ := World.handle_call_alone accounts.alone c
  have hserved : (World.handle (.call c) w).2.ServesAll := by
    unfold World.ServesAll World.capabilities
    rw [hfollows.lacking]
    exact accounts.served
  -- the call did not reach the store, or it did
  have hstore : (World.handle (.call c) w).2.store = w.store ∨
      (World.handle (.call c) w).2.store = (w.store.perform c).2 := by
    rcases hend with ⟨_, h⟩ | ⟨_, _, _, h⟩
    · exact .inr h
    · exact h
  rcases hstore with h | h
  · exact ⟨⟨by rw [h]; exact accounts.store, hfollows.alone, hserved⟩,
      fun holds => .inl (by rw [h]; exact holds)⟩
  · exact ⟨⟨by rw [h]; exact safe.accounts, hfollows.alone, hserved⟩,
      fun holds => by rw [h]; exact safe.released holds⟩

/-- The request does not go to the store. -/
theorem World.Accounts.safe_other {root : Root} {w : World} (accounts : w.Accounts root)
    {r : Request} (other : ∀ c, r ≠ .call c) : r.Safe root w := by
  cases r with
  | call c => exact absurd rfl (other c)
  | capabilities | isCancelled | clock | record | forget | linkedChildren | announce =>
    exact ⟨⟨accounts.store, accounts.alone, accounts.served⟩, .inl⟩

namespace Pass

variable {α : Type} {root : Root} {w : World} {done : α → World → Prop}

/-- How a pass goes whose requests are all safe. -/
def AmidSafe (root : Root) (p : Pass α) (w : World) (done : α → World → Prop) : Prop :=
  p.Amid (.sparing root) (Request.Safe root) w done fun _ _ => True

theorem AmidSafe.bind {β : Type} {p : Pass α} {f : α → Pass β} {after : β → World → Prop}
    (h : p.AmidSafe root w done) (next : ∀ a v, done a v → (f a).AmidSafe root v after) :
    (p.bind f).AmidSafe root w after := Amid.bind h next

/-- A call that is safe whatever others have done before it. -/
theorem safe_call {c : StoreCall} {next : c.Reply → Pass α} (accounts : w.Accounts root)
    (safe : ∀ v : World, w.Spares root v → v.Accounts root →
      v.store.Safe root (v.store.perform c).2)
    (answered : ∀ (v u : World) a, w.Spares root v → v.Accounts root → u.Accounts root →
      v.store.perform c = (.ok a, u.store) → (next a).AmidSafe root u done) :
    ((call c).bind next).AmidSafe root w done := by
  have hsafe : ∀ v : World, w.Spares root v → (Request.call c).Safe root v := fun v others =>
    (others.accounts accounts).safe_call (safe v others (others.accounts accounts))
  refine amid_call hsafe ?_ fun _ _ _ _ _ => trivial
  intro v a u others hreply
  have hv := others.accounts accounts
  have hu : (World.handle (.call c) v).2.Accounts root := (hsafe v others).accounts
  have hanswer : World.handle (.call c) v = (.ok a, u) := hreply
  rw [hanswer] at hu
  exact answered v u a others hv hu (hv.alone.answered hanswer)

/-- A call that changes nothing the account is about. -/
theorem safe_harmless {c : StoreCall} {next : c.Reply → Pass α} (accounts : w.Accounts root)
    (harmless : Store.Harmless root c)
    (answered : ∀ (v u : World) a, w.Spares root v → v.Accounts root → u.Accounts root →
      v.store.perform c = (.ok a, u.store) → (next a).AmidSafe root u done) :
    ((call c).bind next).AmidSafe root w done :=
  safe_call accounts (fun v _ hv => (Store.spares_perform harmless v.store).safe hv.store) answered

end Pass

/-! ## §2. Passes that link -/

/-- The account is kept, and some namespaces are on record. -/
structure World.AccountsFor (root : Root) (linked : Roster String) (w : World) : Prop
    extends w.Accounts root where
  known : ∀ ns ∈ linked, w.store.Records root ns

theorem World.AccountsFor.others (root : Root) (linked : Roster String) :
    (Scene.sparing root).Keeps (World.AccountsFor root linked) := by
  intro w v h others
  exact ⟨others.accounts h.toAccounts, fun ns hns => others.store.marks.records (h.known ns hns)⟩

/-- What a pass asks for once the root is held. -/
def Request.Tends (root : Root) (linked : Roster String) : Request → Prop
  | .call c => Store.Tends root linked c
  | _ => True

/-- An object that is read carries the name of its key. -/
def Request.Named : (r : Request) → r.Reply → Prop
  | .call (.get key), reply => ∀ o, reply = .ok (some o) → o.metadata.name = some key.name
  | _, _ => True

/-- Such a request is safe, and keeps on record what is there. -/
theorem World.AccountsFor.tends {root : Root} {linked : Roster String} {w : World}
    (h : w.AccountsFor root linked) {r : Request} (tends : r.Tends root linked) :
    r.Safe root w ∧ (World.handle r w).2.AccountsFor root linked := by
  cases r with
  | call c =>
    obtain ⟨hmarks, haccounts⟩ := h.store.perform h.known tends
    have hsafe := h.toAccounts.safe_call (haccounts.safe hmarks)
    refine ⟨hsafe, hsafe.accounts, fun ns hns => ?_⟩
    -- where a fault kept the call from the store, the record is as before
    obtain ⟨_, _, hend⟩ := World.handle_call_alone h.alone c
    have hafter := hmarks.records (h.known ns hns)
    rcases hend with ⟨_, hstore⟩ | ⟨_, _, _, hstore | hstore⟩
    · rw [hstore]
      exact hafter
    · rw [hstore]
      exact h.known ns hns
    · rw [hstore]
      exact hafter
  | capabilities | isCancelled | clock | record | forget | linkedChildren | announce =>
    exact ⟨h.toAccounts.safe_other (by simp), ⟨h.store, h.alone, h.served⟩, h.known⟩

/-- What a call answers in such a world carries its name. -/
theorem World.Accounts.named {root : Root} {w : World} (h : w.Accounts root) (r : Request) :
    r.Named (World.handle r w).1 := by
  cases r with
  | call c =>
    cases c with
    | get key =>
      intro o ho
      have hanswer : World.handle (.call (.get key)) w
          = (.ok (some o), (World.handle (.call (.get key)) w).2) := Prod.ext ho rfl
      have hget := congrArg Prod.fst (h.alone.answered hanswer)
      injection hget with hget
      exact h.store.named key o hget
    | create | update | updateStatus | list | delete => trivial
  | capabilities | isCancelled | clock | record | forget | linkedChildren | announce => trivial

namespace Pass

variable {root : Root} {linked : Roster String} {w : World}

theorem common_tends (root : Root) (linked : Roster String) :
    Common root (Request.Tends root linked) where
  get := .harmless trivial
  capabilities := trivial
  isCancelled := trivial
  clock := trivial
  record _ _ := trivial
  forget := trivial
  announce _ := trivial
  report _ := .harmless trivial

theorem tends_reaches {c : Child} (home : c.ns = root.ns ∨ c.ns ∈ linked) :
    Reaches Request.Named (Request.Tends root linked) c where
  get := .harmless trivial
  settled stored named := by
    refine only_settle (.create ⟨c.body.kind_mem_children, home, rfl⟩) fun cur next hcur hn => ?_
    have hname : next.metadata.name = some c.name := by
      rw [Child.amend?_some hn]
      exact named cur (by rw [hcur])
    exact .update ⟨c.body.kind_mem_children, home, hname⟩

/-- Once the namespaces of its children are on record, all that a pass asks for is safe. -/
theorem safe_goOn {τ : Type} [DecidableEq τ] {p : Plan τ} (home : ∀ caps, ∀ c ∈ p.children caps,
      c.ns = p.root.ns ∨ c.ns ∈ linked) (accounts : w.AccountsFor p.root linked)
    (settings : Settings) : (p.goOn settings).AmidSafe p.root w fun _ _ => True := by
  -- what is read carries the name of its key, and so does what is written back
  have honly : (p.goOn settings).OnlyIf Request.Named (Request.Tends p.root linked) :=
    Plan.only_goOn (common_tends _ _) (fun caps _ c hc => tends_reaches (home caps c hc)) settings
  have hkept := honly.amid (World.AccountsFor.others p.root linked) accounts fun r t ht hr =>
    ⟨ht.toAccounts.named r, (ht.tends hr).2⟩
  exact hkept.mono (fun r t h => (h.1.tends h.2).1) (fun _ _ _ => trivial) fun _ _ _ => trivial

/-- Where plain namespaces are put on record, they are on record afterwards, and what was there
    is still there. -/
theorem safe_holdRoot (accounts : w.Accounts root)
    (plain : ∀ ns ∈ linked, Finalizer.Plain ns) :
    (holdRoot root linked).AmidSafe root w fun _ v => v.AccountsFor root linked := by
  refine safe_harmless accounts trivial ?_
  intro v u stored _ hv hu hreply
  injection hreply with hreply hstore
  injection hreply with hreply
  obtain ⟨o, ho⟩ := hv.store.stored
  rw [ho] at hreply
  subst hreply
  have hroot : Table.get? u.store.objects root.key = some o := by rw [← hstore]; exact ho
  cases hm : Finalizer.hold? o.metadata linked with
  | none =>
    simp only [hm]
    obtain ⟨hholds, hknown⟩ := Finalizer.hold?_eq_none_iff.mp hm
    exact ⟨hu, fun ns hns => ⟨o, hroot, hholds, hknown ns hns⟩⟩
  | some m =>
    simp only [hm]
    obtain rfl := Finalizer.held_of_some hm
    have hname := hu.store.named _ o hroot
    -- others leave finalizer and record of the root alone until it is written back
    have hkept : ∀ x : World, u.Spares root x → ∀ p, Table.get? x.store.objects root.key = some p →
        Finalizer.SameMarks o.metadata p.metadata := by
      intro x others p hp
      obtain ⟨q, hq, hmarks⟩ := others.store.marks o hroot
      rw [hp] at hq
      injection hq with hq
      rw [hq]
      exact hmarks
    refine safe_call hu (fun x others hx => hx.store.safe_of_ok fun a t hanswer => ?_) ?_
    · obtain ⟨haccounts, hholds, _⟩ := hx.store.put_held hname (hkept x others) plain hanswer
      exact ⟨haccounts, fun _ => .inl hholds⟩
    · intro x y a others hx hy hanswer
      obtain ⟨_, _, hrecords⟩ := hx.store.put_held hname (hkept x others) plain hanswer
      exact ⟨hy, hrecords⟩

theorem safe_holdIfLinked (accounts : w.Accounts root) {settings : Settings}
    (on : settings.features.crossNamespaceCleanup = true)
    (plain : ∀ ns ∈ linked, Finalizer.Plain ns) :
    (holdIfLinked settings root linked).AmidSafe root w
      fun _ v => v.AccountsFor root linked := by
  unfold holdIfLinked
  cases linked with
  | nil =>
    rw [List.isEmpty_nil, Bool.not_true, Bool.and_false]
    exact ⟨accounts, fun ns hns => absurd hns List.not_mem_nil⟩
  | cons ns rest =>
    rw [on]
    exact (safe_holdRoot accounts plain).bind fun _ _ h => amid_done h

end Pass

/-! ## §3. Passes that delete -/

/-- The account is kept, and whatever is linked is in a place that is still to be looked through, or
    among what was found. -/
structure World.Searched (root : Root) (places : List (String × Kind)) (found : List Key)
    (w : World) : Prop extends w.Accounts root where
  covered : ∀ key, w.store.HasLinked root key → (key.ns, key.kind) ∈ places ∨ key ∈ found

theorem World.Searched.others {root : Root} {places : List (String × Kind)} {found : List Key}
    {w v : World} (h : w.Searched root places found) (others : w.Spares root v) :
    v.Searched root places found :=
  ⟨others.accounts h.toAccounts, fun key hkey => h.covered key (others.store.linked key hkey)⟩

namespace Pass

variable {root : Root} {w : World}

/-- The next place is looked through. -/
theorem safe_linkedObjects (name : ',' ∉ root.name.toList) (rootNs : ',' ∉ root.ns.toList)
    {ns : String} {kind : Kind} {places : List (String × Kind)} {found : Roster Key}
    (searched : w.Searched root ((ns, kind) :: places) found) :
    (linkedObjects root kind ns).AmidSafe root w fun keys v =>
      v.Searched root places (Roster.union found keys) ∧ ∀ key ∈ keys, key.ns = ns := by
  refine safe_harmless searched.toAccounts trivial ?_
  intro v u objects others hv hu hreply
  have hsearched := searched.others others
  have hobjects : u.store.objects = v.store.objects := by
    injection hreply with _ hstore
    rw [← hstore]
    rfl
  -- what is linked in this place is listed; what is linked elsewhere is where it was
  refine ⟨⟨hu, fun key hkey => ?_⟩, ?_⟩
  · have hkey : v.store.HasLinked root key := by
      obtain ⟨hforeign, o, ho, hlinks⟩ := hkey
      exact ⟨hforeign, o, by rw [← hobjects]; exact ho, hlinks⟩
    rw [Roster.mem_union]
    rcases hsearched.covered key hkey with hplace | hfound
    · rcases List.mem_cons.mp hplace with hplace | hplace
      · obtain ⟨o, ho, hlinks⟩ := hkey.stored
        exact .inr (.inr (hv.store.named.mem_listed name rootNs hreply hplace ho hlinks))
      · exact .inl hplace
    · exact .inr (.inl hfound)
  · intro key hkey
    obtain ⟨o, _, rfl⟩ := List.mem_map.mp hkey
    rfl

/-- Places are looked through one after the other. -/
theorem safe_collectLinked (name : ',' ∉ root.name.toList) (rootNs : ',' ∉ root.ns.toList)
    {places : List (String × Kind)} {found : Roster Key}
    (foreignPlaces : ∀ place ∈ places, place.1 ≠ root.ns)
    (foreignFound : ∀ key ∈ found, key.ns ≠ root.ns) (searched : w.Searched root places found) :
    (collectLinked root places found).AmidSafe root w fun doomed v =>
      v.Searched root [] doomed ∧ ∀ key ∈ doomed, key.ns ≠ root.ns := by
  induction places generalizing w found with
  | nil => exact ⟨searched, foreignFound⟩
  | cons place places ih =>
    obtain ⟨ns, kind⟩ := place
    refine AmidSafe.bind (safe_linkedObjects name rootNs searched) ?_
    rintro keys v ⟨hsearched, hkeys⟩
    have hplaces : ∀ place ∈ places, place.1 ≠ root.ns := fun place hplace =>
      foreignPlaces place (List.mem_cons_of_mem _ hplace)
    refine ih hplaces (fun key hkey => ?_) hsearched
    rcases (Roster.mem_union _ _ key).mp hkey with h | h
    · exact foreignFound key h
    · rw [hkeys key h]
      exact foreignPlaces (ns, kind) List.mem_cons_self

/-- What was found is deleted, and then nothing is linked. -/
theorem safe_deleteAll {doomed : List Key} (foreign : ∀ key ∈ doomed, key.ns ≠ root.ns)
    (searched : w.Searched root [] doomed) :
    (deleteAll doomed).AmidSafe root w fun _ v => v.Searched root [] [] := by
  induction doomed generalizing w with
  | nil => exact searched
  | cons key doomed ih =>
    refine safe_harmless searched.toAccounts (foreign key (by simp)) ?_
    intro v u _ others hv hu hreply
    refine ih (fun k hk => foreign k (List.mem_cons_of_mem _ hk)) ⟨hu, fun k hk => ?_⟩
    have herased : u.store.objects = Table.erase v.store.objects key := by
      rw [← (Store.perform_delete v.store key).2, hreply]
    obtain ⟨hforeign, o, ho, hlinks⟩ := hk
    rw [herased] at ho
    obtain ⟨hkey, hbefore⟩ := Table.get?_of_erase ho
    -- what is still linked was found as well, and its turn is to come
    rcases (searched.others others).covered k ⟨hforeign, o, hbefore, hlinks⟩ with h | h
    · exact .inl h
    · exact .inr ((List.mem_cons.mp h).resolve_left fun heq => hkey heq.symm)

/-- All that is linked is in a namespace on record, and so is found and deleted. -/
theorem safe_deleteLinked (name : ',' ∉ root.name.toList) (rootNs : ',' ∉ root.ns.toList)
    {m : Metadata} (accounts : w.Accounts root)
    (known : ∀ key, w.store.HasLinked root key → key.ns ∈ Finalizer.recorded m)
    (children : List Key) (scope : Roster String) {caps : Capabilities}
    (served : ∀ k, caps.supports k = true) :
    (deleteLinked root m children scope caps).AmidSafe root w
      fun _ v => v.Searched root [] [] := by
  unfold deleteLinked
  refine AmidSafe.bind (safe_collectLinked name rootNs ?_ ?_ ⟨accounts, ?_⟩) ?_
  · intro place hplace
    obtain ⟨ns, hns, hplace⟩ := List.mem_flatMap.mp hplace
    obtain ⟨kind, _, rfl⟩ := List.mem_map.mp hplace
    simpa using (List.mem_filter.mp hns).2
  · intro key hkey
    -- what the ledger knows outside the namespace of the root is found to begin with
    have hours := (List.mem_filter.mp ((Roster.mem_ofList _ key).mp hkey)).2
    simp only [ne_eq, Bool.and_eq_true, decide_eq_true_eq] at hours
    exact hours.1
  · intro key hkey
    -- every namespace on record is looked through for every kind of child
    refine .inl (List.mem_flatMap.mpr ⟨key.ns, List.mem_filter.mpr ⟨?_, ?_⟩,
      List.mem_map.mpr ⟨key.kind, List.mem_filter.mpr ⟨?_, served _⟩, rfl⟩⟩)
    · exact (Roster.mem_union _ _ _).mpr (.inl (known key hkey))
    · simpa using hkey.foreign
    · exact accounts.store.kinds key hkey
  · rintro doomed v ⟨hsearched, hforeign⟩
    exact (safe_deleteAll hforeign hsearched).bind fun _ _ h => h

/-- The root is let go once nothing is linked to it. -/
theorem safe_releaseUpdate {o : Object} (name : o.metadata.name = some root.name)
    (searched : w.Searched root [] []) (n : Nat) :
    ((call (.update root.key { o with metadata := Finalizer.released o.metadata })).bind fun _ =>
      Pass.done n).AmidSafe root w fun _ _ => True := by
  refine safe_call searched.toAccounts ?_ fun _ _ _ _ _ _ _ => trivial
  intro v others hv
  have hnone : v.store.Unlinked root := by
    intro key hkey
    rcases (searched.others others).covered key hkey with h | h
    · exact absurd h List.not_mem_nil
    · exact absurd h List.not_mem_nil
  refine hv.store.safe_of_ok fun a t hreply => ?_
  obtain ⟨_, _, _, written⟩ := Store.perform_update_ok hreply
  obtain ⟨haccounts, hunlinked⟩ := hv.store.put_released hnone written name
  exact ⟨haccounts, fun _ => .inr hunlinked⟩

theorem safe_request {α : Type} {r : Request} {next : r.Reply → Pass α} {done : α → World → Prop}
    (accounts : w.Accounts root) (other : ∀ c, r ≠ .call c)
    (answered : ∀ v : World, v.Accounts root →
      (next (World.handle r v).1).AmidSafe root (World.handle r v).2 done) :
    ((request r).bind next).AmidSafe root w done := by
  intro v others
  have hv := World.Spares.accounts others accounts
  exact ⟨hv.safe_other other, answered v hv⟩

theorem safe_releaseRoot (name : ',' ∉ root.name.toList) (rootNs : ',' ∉ root.ns.toList)
    (accounts : w.Accounts root) (scope : Roster String) {caps : Capabilities}
    (served : ∀ k, caps.supports k = true) :
    (releaseRoot root (some scope) caps).AmidSafe root w fun _ _ => True := by
  refine safe_request accounts (by simp) fun v hv => ?_
  refine safe_request hv (by simp) fun u hu => ?_
  have hafter : (World.handle (.forget root.key) u).2.Accounts root :=
    (hu.safe_other (r := .forget root.key) (by simp)).accounts
  refine safe_harmless hafter trivial ?_
  intro x y stored _ hx hy hreply
  injection hreply with hreply hstore
  injection hreply with hreply
  have hobjects : y.store.objects = x.store.objects := by
    rw [← hstore]
    rfl
  cases stored with
  | none => trivial
  | some o =>
    show (if Finalizer.holds o.metadata = true then _ else Pass.done 0).AmidSafe root y _
    by_cases hholds : Finalizer.holds o.metadata = true
    · rw [if_pos hholds]
      have hroot : Table.get? y.store.objects root.key = some o := by
        rw [hobjects]
        exact hreply
      -- the record that was read is the one on the root, so that no namespace is left out
      refine AmidSafe.bind (safe_deleteLinked name rootNs hy ?_ _ scope served) ?_
      · intro key hkey
        obtain ⟨p, hp, _, hns⟩ := hy.store.recorded key hkey
        rw [hroot] at hp
        injection hp with hp
        rw [hp]
        exact hns
      · exact fun n z hz => safe_releaseUpdate (hy.store.named _ o hroot) hz n
    · rw [if_neg hholds]
      trivial

theorem safe_release (name : ',' ∉ root.name.toList) (rootNs : ',' ∉ root.ns.toList)
    (accounts : w.Accounts root) {settings : Settings}
    (on : settings.features.crossNamespaceCleanup = true) (namespaces : Roster String) :
    (release settings root namespaces).AmidSafe root w fun _ _ => True := by
  unfold release
  rw [on]
  refine safe_request accounts (by simp) fun v hv => ?_
  exact (safe_releaseRoot name rootNs hv namespaces hv.served).bind fun _ _ _ => trivial

/-! ## §4. Any pass -/

/-- With cleanup on every request of a pass over a SchedulerInstall is safe. -/
theorem safe_pass (name : ',' ∉ root.name.toList) (rootNs : ',' ∉ root.ns.toList)
    {i : Install.Resource} (identity : (RootResource.install i).root = root) {settings : Settings}
    (on : settings.features.crossNamespaceCleanup = true)
    (plain : ∀ ns ∈ (RootSpec.install i.spec).namespaces, ',' ∉ ns.toList ∧ Text.trim ns = ns)
    (accounts : w.Accounts root) :
    ((RootResource.install i).pass settings).AmidSafe root w fun _ _ => True := by
  have hsteps : (Install.steps settings root i).AmidSafe root w fun _ _ => True := by
    cases hdeleted : i.metadata.deletionTimestamp with
    | some time =>
      unfold Install.steps
      rw [hdeleted]
      exact safe_release name rootNs accounts on _
    | none =>
      rw [Install.steps_eq settings root hdeleted]
      cases hcheck : (i.spec.withDefaults root.name root.ns).validate with
      -- a spec that is refused ends the pass before it asks for anything
      | error e => trivial
      | ok _ =>
        show ((Install.plan root i).steps settings).AmidSafe root w _
        rw [Plan.steps_eq]
        refine AmidSafe.bind (safe_holdIfLinked accounts on (Install.plain_linked plain)) ?_
        intro _ v known
        exact safe_goOn (p := Install.plan root i)
          (fun caps c hc => Install.Spec.home_linked hcheck caps hc) known settings
  show (warned _ (Install.steps settings _ i)).AmidSafe root w _
  rw [identity]
  refine Amid.warned (hsteps.keep ?_ ?_ accounts |>.mono (fun _ _ h => h.2) (fun _ _ _ => trivial)
    fun _ _ h => h.1) (fun _ _ => trivial) ?_
  · exact fun v u hv others => World.Spares.accounts others hv
  · exact fun r v _ hsafe => hsafe.accounts
  · exact fun e v u _ hv others =>
      ⟨(World.Spares.accounts others hv).safe_other (by simp), trivial⟩

end Pass

/-! ## §5. Courses of events -/

/-- A world, and the pass that is on its way there. -/
structure Situation where
  world : World
  running : Option (Pass NextLook) := none

/-- What may happen next to a SchedulerInstall with cleanup on. -/
inductive Happens (root : Root) : Situation → Situation → Prop
  /-- Others act; among other things they may edit the stored spec of the root. -/
  | others {w v : World} (running : Option (Pass NextLook)) :
      w.Spares root v → Happens root ⟨w, running⟩ ⟨v, running⟩
  /-- A pass starts, over the root with whatever spec it has by then, deleted or not. -/
  | start {w : World} (i : Install.Resource) (settings : Settings) :
      (RootResource.install i).root = root →
      settings.features.crossNamespaceCleanup = true →
      (∀ ns ∈ (RootSpec.install i.spec).namespaces, ',' ∉ ns.toList ∧ Text.trim ns = ns) →
      Happens root ⟨w, none⟩ ⟨w, some ((RootResource.install i).pass settings)⟩
  /-- The pass makes its next request. -/
  | ask {w : World} (r : Request) (next : r.Reply → Pass NextLook) :
      Happens root ⟨w, some (.ask r next)⟩
        ⟨(World.handle r w).2, some (next (World.handle r w).1)⟩
  /-- The pass has ended, or is given up wherever it is. -/
  | stop {w : World} (p : Pass NextLook) : Happens root ⟨w, some p⟩ ⟨w, none⟩
  /-- The controller starts anew, with an empty ledger. -/
  | restart {w : World} (running : Option (Pass NextLook)) (settings : Settings)
      (lacking : Option (List Kind)) : (w.restarted settings lacking).ServesAll →
      Happens root ⟨w, running⟩ ⟨w.restarted settings lacking, none⟩

/-- Any number of events. -/
def Course (root : Root) : Situation → Situation → Prop := Relation.ReflTransGen (Happens root)

/-- The root accounts for its links, and all that a pass on its way will ask for is safe. -/
structure Situation.Accounts (root : Root) (s : Situation) : Prop where
  world : s.world.Accounts root
  running : ∀ p, s.running = some p → p.AmidSafe root s.world fun _ _ => True

/-- A pass that is on its way does not mind what others do. -/
theorem Pass.AmidSafe.others {root : Root} {p : Pass NextLook} {w v : World}
    (h : p.AmidSafe root w fun _ _ => True) (others : w.Spares root v) :
    p.AmidSafe root v fun _ _ => True := by
  cases p with
  | done a => trivial
  | fail e => trivial
  | ask r next => exact fun u hu => h u ((Scene.sparing root).further others hu)

/-- Whatever happens next, the account is kept. -/
theorem Situation.Accounts.next {root : Root} (name : ',' ∉ root.name.toList)
    (rootNs : ',' ∉ root.ns.toList) {s t : Situation} (h : s.Accounts root)
    (next : Happens root s t) : t.Accounts root := by
  cases next with
  | others running spares =>
    exact ⟨spares.accounts h.world, fun p hp => (h.running p hp).others spares⟩
  | start i settings identity on plain =>
    refine ⟨h.world, fun p hp => ?_⟩
    injection hp with hp
    rw [← hp]
    exact Pass.safe_pass name rootNs identity on plain h.world
  | ask r next =>
    obtain ⟨hsafe, hnext⟩ := h.running _ rfl _ ((Scene.sparing root).still _)
    refine ⟨hsafe.accounts, fun p hp => ?_⟩
    injection hp with hp
    rw [← hp]
    exact hnext
  | stop p => exact ⟨h.world, nofun⟩
  | restart running settings lacking served =>
    exact ⟨⟨h.world.store, h.world.alone, served⟩, nofun⟩

theorem Situation.Accounts.course {root : Root} (name : ',' ∉ root.name.toList)
    (rootNs : ',' ∉ root.ns.toList) {s t : Situation} (h : s.Accounts root)
    (course : Course root s t) : t.Accounts root := by
  induction course with
  | refl => exact h
  | tail _ next ih => exact ih.next name rootNs next

/-- A root is let go only where nothing is linked to it. -/
theorem Situation.Accounts.released {root : Root} {s t : Situation} (h : s.Accounts root)
    (next : Happens root s t) (held : s.world.store.HoldsRoot root)
    (released : ¬ t.world.store.HoldsRoot root) : t.world.store.Unlinked root := by
  cases next with
  | others running spares => exact absurd (spares.store.marks.holdsRoot held) released
  | start i settings identity on plain => exact absurd held released
  | ask r next =>
    obtain ⟨hsafe, _⟩ := h.running _ rfl _ ((Scene.sparing root).still _)
    exact (hsafe.released held).resolve_left released
  | stop p => exact absurd held released
  | restart running settings lacking served => exact absurd held released

/-- A SchedulerInstall is in a store whose objects carry the names of their keys, and to begin with
    nothing outside its namespace is linked to it.  Passes over it run with cleanup on, whatever
    their specs; they fail, are cancelled and are given up at any request; the controller starts
    anew; and others write as they like, but leave the finalizers of the root, its record and all
    links alone.  Then at any time everything that is linked to the root outside its namespace is
    in a namespace that the root, holding the finalizer, has on record; and when the finalizer is
    let go nothing is linked any more. -/
theorem Install.no_orphan {root : Root} (name : ',' ∉ root.name.toList)
    (rootNs : ',' ∉ root.ns.toList) {w : World}
    (stored : ∃ o, Table.get? w.store.objects root.key = some o) (named : w.store.Named)
    (unlinked : w.store.Unlinked root) (alone : w.Alone) (served : w.ServesAll) {s : Situation}
    (course : Course root ⟨w, none⟩ s) :
    (∀ key, s.world.store.HasLinked root key → s.world.store.Records root key.ns) ∧
      ∀ t, Happens root s t → s.world.store.HoldsRoot root → ¬ t.world.store.HoldsRoot root →
        t.world.store.Unlinked root := by
  have hstart : Situation.Accounts root ⟨w, none⟩ :=
    ⟨⟨⟨stored, named, fun key h => absurd h (unlinked key), fun key h => absurd h (unlinked key)⟩,
      alone, served⟩, nofun⟩
  have hs := hstart.course name rootNs course
  exact ⟨hs.world.store.recorded, fun t next held released => hs.released next held released⟩

theorem linkedWorld_named : linkedWorld.store.Named := by
  intro key o ho
  obtain ⟨rfl, rfl⟩ := Prod.mk.inj (List.mem_singleton.mp (Table.mem_of_get? ho))
  rfl

theorem linkedWorld_unlinked : linkedWorld.store.Unlinked linkedInstall.root := by
  rintro key ⟨hforeign, o, ho, _⟩
  obtain ⟨rfl, _⟩ := Prod.mk.inj (List.mem_singleton.mp (Table.mem_of_get? ho))
  exact hforeign rfl

/-- So many requests of the pass that is on its way are answered. -/
def Situation.after : Nat → Situation → Situation
  | n + 1, ⟨w, some (.ask r next)⟩ =>
    after n ⟨(World.handle r w).2, some (next (World.handle r w).1)⟩
  | _, s => s

theorem Situation.course_after (root : Root) (n : Nat) (s : Situation) :
    Course root s (s.after n) := by
  fun_induction Situation.after n s with
  | case1 n w r next ih => exact .head (.ask r next) ih
  | case2 n s => exact .refl

/-- One more request is one more event, unless there was none. -/
theorem Situation.happens_after (root : Root) (n : Nat) (s : Situation) :
    s.after (n + 1) = s.after n ∨ Happens root (s.after n) (s.after (n + 1)) := by
  fun_induction Situation.after n s with
  | case1 n w r next ih => exact ih
  | case2 n s h =>
    obtain ⟨w, running⟩ := s
    cases running with
    | none => exact .inl rfl
    | some p =>
      cases p with
      | done a => exact .inl rfl
      | fail e => exact .inl rfl
      | ask r next =>
        -- the pass is on its way still, so that all that was asked of it was answered
        cases n with
        | zero => exact .inr (.ask r next)
        | succ n => exact absurd rfl (h n w r next rfl)

theorem Situation.course_stop (root : Root) (s : Situation) : Course root s ⟨s.world, none⟩ := by
  obtain ⟨w, running⟩ := s
  cases running with
  | none => exact .refl
  | some p => exact .single (.stop p)

/-- The root of `linkedInstall`, with its simulators in some namespace, deleted or not. -/
def movedInstall (ns : String) (deleted : Option String) : Install.Resource where
  metadata := { name := some "pool", ns := some "default", uid := some "u-1",
                deletionTimestamp := deleted }
  spec := { simulatorNamespace := ns }

/-- A pass over it is given up after so many requests. -/
def World.moved (w : World) (ns : String) (deleted : Option String) (n : Nat) : Situation :=
  Situation.after n
    ⟨w, some ((RootResource.install (movedInstall ns deleted)).pass linkedSettings)⟩

theorem World.course_moved (w : World) {ns : String} (known : ns ∈ ["sims", "labs"])
    (deleted : Option String) (n : Nat) :
    Course linkedInstall.root ⟨w, none⟩ (w.moved ns deleted n) := by
  have hplain : ∀ ns ∈ ["sims", "labs"],
      ∀ x ∈ (RootSpec.install { simulatorNamespace := ns }).namespaces,
        ',' ∉ x.toList ∧ Text.trim x = x := by decide +kernel
  exact .head (.start (movedInstall ns deleted) linkedSettings rfl rfl (hplain ns known))
    (Situation.course_after _ n _)

theorem World.happens_moved (w : World) (ns : String) (deleted : Option String) (n : Nat) :
    w.moved ns deleted (n + 1) = w.moved ns deleted n ∨
      Happens linkedInstall.root (w.moved ns deleted n) (w.moved ns deleted (n + 1)) :=
  Situation.happens_after _ n _

theorem World.course_restarted (root : Root) (w : World) :
    Course root ⟨w, none⟩ ⟨w.restarted linkedSettings none, none⟩ :=
  .single (.restart none linkedSettings none fun _ => rfl)

/-- A pass has linked a service, and the controller was started anew; then the spec was moved, and
    a pass has linked another service and was given up. -/
def movedWorld : World :=
  let first := (linkedWorld.moved "sims" none 40).world
  ((first.restarted linkedSettings none).moved "labs" none 6).world

theorem course_movedWorld : Course linkedInstall.root ⟨linkedWorld, none⟩ ⟨movedWorld, none⟩ := by
  refine .trans (World.course_moved _ (by decide : "sims" ∈ _) none 40) ?_
  refine .trans (Situation.course_stop _ _) ?_
  refine .trans (World.course_restarted _ _) ?_
  refine .trans (World.course_moved _ (by decide : "labs" ∈ _) none 6) ?_
  exact Situation.course_stop _ _

/-- Both sides are on record, and the last request of a deletion lets the finalizer go. -/
theorem no_orphan_movedInstall :
    let doomed := movedWorld.moved "labs" (some "2024-05-03T00:00:00Z")
    (∀ ns ∈ ["sims", "labs"],
      movedWorld.store.HasLinked linkedInstall.root ⟨.service, ns, "pool-proxy"⟩ ∧
        movedWorld.store.Records linkedInstall.root ns) ∧
    (doomed 26).world.store.HoldsRoot linkedInstall.root ∧
    ¬ (doomed 27).world.store.HoldsRoot linkedInstall.root ∧
    (doomed 27).world.store.Unlinked linkedInstall.root := by
  intro doomed
  have hlinked : ∀ ns ∈ ["sims", "labs"],
      movedWorld.store.HasLinked linkedInstall.root ⟨.service, ns, "pool-proxy"⟩ := by
    decide +kernel
  have hheld : (doomed 26).world.store.HoldsRoot linkedInstall.root := by decide +kernel
  have hreleased : ¬ (doomed 27).world.store.HoldsRoot linkedInstall.root := by decide +kernel
  have hdoomed : Course linkedInstall.root ⟨linkedWorld, none⟩ (doomed 26) :=
    course_movedWorld.trans (World.course_moved _ (by decide : "labs" ∈ _) _ 26)
  have hlast : Happens linkedInstall.root (doomed 26) (doomed 27) := by
    refine (World.happens_moved _ _ _ 26).resolve_left fun hsame => hreleased ?_
    rw [show doomed 27 = doomed 26 from hsame]
    exact hheld
  have hholds {s : Situation} (course : Course linkedInstall.root ⟨linkedWorld, none⟩ s) :=
    Install.no_orphan (by decide) (by decide) ⟨_, rfl⟩ linkedWorld_named linkedWorld_unlinked
      (World.Calm.alone rfl) (fun _ => rfl) course
  exact ⟨fun ns hns => ⟨hlinked ns hns, (hholds course_movedWorld).1 _ (hlinked ns hns)⟩,
    hheld, hreleased, (hholds hdoomed).2 _ hlast hheld hreleased⟩

end Converge
