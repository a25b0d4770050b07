/-
  Converge.Proofs.Pass.Confined — what a pass leaves as it is.

  A pass over a root that is not being deleted writes by three ways: it holds the root, it settles
  children, and it reports on the root.  Each of them replaces a whole object by one that was made
  from a copy read before.  As long as nobody else writes, what goes back differs from what is
  stored only where it was meant to, wherever faults or a shutdown cut the pass short.

  Main statements:
    * `Store.Confined.perform` — a call that settles children or reports keeps to its bounds.
    * `RootResource.confined_pass` — so does a whole pass.
-/
import Converge.Proofs.Pass.Gated

namespace Converge

/-! ## §1. The root -/

/-- The object is `o` but for its version and its status and, where `linking` holds, for the
    finalizer and the record of the cleanup. -/
structure Object.SameButStatus (linking : Prop) (o q : Object) : Prop where
  types : q.types = o.types
  data : q.data = o.data ∨ ∃ status, q.data = o.data.setMember "status" status
  metadata : { q.metadata with
    resourceVersion := o.metadata.resourceVersion
    finalizers := o.metadata.finalizers
    annotations := o.metadata.annotations } = o.metadata
  finalizers : q.metadata.finalizers = o.metadata.finalizers ∨
    linking ∧ q.metadata.finalizers = some (o.metadata.finalizers.getD [] ++ [Finalizer.name])
  annotations : q.metadata.annotations = o.metadata.annotations ∨
    linking ∧ ∃ record, q.metadata.annotations
      = some (Table.insert (o.metadata.annotations.getD []) Finalizer.recordKey record)

namespace Object.SameButStatus

variable {linking : Prop} {o q : Object}

theorem refl (linking : Prop) (o : Object) : SameButStatus linking o o :=
  ⟨rfl, .inl rfl, rfl, .inl rfl, .inl rfl⟩

/-- A later status takes the place of an earlier one. -/
theorem reported (h : SameButStatus linking o q) (version : Option String) (status : Json) :
    SameButStatus linking o
      { q with
        metadata := { q.metadata with resourceVersion := version }
        data := q.data.setMember "status" status } where
  types := h.types
  data := by
    rcases h.data with hsame | ⟨old, hold⟩
    · exact .inr ⟨status, congrArg (·.setMember "status" status) hsame⟩
    · refine .inr ⟨status, ?_⟩
      show q.data.setMember "status" status = _
      rw [hold, Json.setMember_setMember]
  metadata := h.metadata
  finalizers := h.finalizers
  annotations := h.annotations

theorem held (holds : linking) (o : Object) (linked : Roster String) (version : Option String) :
    SameButStatus linking o { o with
      metadata := { Finalizer.held o.metadata linked with resourceVersion := version } } := by
  have hfinalizers : (Finalizer.finalized o.metadata).finalizers = o.metadata.finalizers ∨
      linking ∧ (Finalizer.finalized o.metadata).finalizers
        = some (o.metadata.finalizers.getD [] ++ [Finalizer.name]) := by
    unfold Finalizer.finalized
    split
    · exact .inl rfl
    · exact .inr ⟨holds, rfl⟩
  have hmetadata : { Finalizer.finalized o.metadata with
      resourceVersion := o.metadata.resourceVersion
      finalizers := o.metadata.finalizers
      annotations := o.metadata.annotations } = o.metadata := by
    unfold Finalizer.finalized
    split <;> rfl
  rw [Finalizer.held_eq]
  split
  · exact ⟨rfl, .inl rfl, hmetadata, hfinalizers,
      .inl (Finalizer.annotations_finalized o.metadata)⟩
  · exact ⟨rfl, .inl rfl, hmetadata, hfinalizers, .inr ⟨holds, _, rfl⟩⟩

end Object.SameButStatus

/-! ## §2. Stores -/

/-- Outside the keys both stores hold the same, versions included; at the root they hold nothing,
    or the same but for the status and, where `linking` holds, the marks of the cleanup. -/
structure Store.Confined (root : Key) (keys : List Key) (linking : Prop) (s t : Store) :
    Prop where
  others : ∀ key, key ≠ root → key ∉ keys →
    Table.get? t.objects key = Table.get? s.objects key
  missing : Table.get? s.objects root = none → Table.get? t.objects root = none
  root : ∀ o, Table.get? s.objects root = some o →
    ∃ q, Table.get? t.objects root = some q ∧ o.SameButStatus linking q

/-- The request is a call that settles a child with one of the keys or reports on the root, or it
    is no write. -/
def Request.Applies (root : Key) (keys : List Key) : Request → Prop
  | .call (.create key _) => key ∈ keys
  | .call (.update key _) => key ∈ keys
  | .call (.updateStatus key _) => key = root
  | .call (.delete _) => False
  | _ => True

namespace Store.Confined

variable {root : Key} {keys : List Key} {linking : Prop} {s t u : Store}

theorem refl (root : Key) (keys : List Key) (linking : Prop) (s : Store) :
    Confined root keys linking s s :=
  ⟨fun _ _ _ => rfl, id, fun o ho => ⟨o, ho, .refl linking o⟩⟩

theorem of_objects (h : Confined root keys linking s t) (same : u.objects = t.objects) :
    Confined root keys linking s u := by
  refine ⟨?_, ?_, ?_⟩
  · rw [same]
    exact h.others
  · rw [same]
    exact h.missing
  · rw [same]
    exact h.root

theorem of_child (h : Confined root keys linking s t) (apart : root ∉ keys) {key : Key}
    (mem : key ∈ keys) {o : Object} (written : u.objects = Table.insert t.objects key o) :
    Confined root keys linking s u := by
  have helse : ∀ k, k ∉ keys → Table.get? u.objects k = Table.get? t.objects k := by
    intro k hk
    have hne : key ≠ k := by
      rintro rfl
      exact hk mem
    rw [written, Table.get?_insert, if_neg hne]
  refine ⟨fun k hroot hk => (helse k hk).trans (h.others k hroot hk), ?_, ?_⟩
  · rw [helse root apart]
    exact h.missing
  · rw [helse root apart]
    exact h.root

/-- A write to the root, of what is the same as stored but for the status. -/
theorem of_root (h : Confined root keys linking s t) {o : Object}
    (same : ∀ p, Table.get? s.objects root = some p → p.SameButStatus linking o)
    (here : ∃ q, Table.get? t.objects root = some q)
    (written : u.objects = Table.insert t.objects root o) : Confined root keys linking s u := by
  refine ⟨fun k hroot hk => ?_, fun gone => ?_, fun p hp => ⟨o, ?_, same p hp⟩⟩
  · rw [written, Table.get?_insert, if_neg (Ne.symm hroot)]
    exact h.others k hroot hk
  · obtain ⟨q, hq⟩ := here
    exact absurd ((h.missing gone).symm.trans hq) nofun
  · rw [written, Table.get?_insert, if_pos rfl]

/-- A call that settles a child or reports on the root keeps to the keys. -/
theorem perform (h : Confined root keys linking s t) (apart : root ∉ keys) {c : StoreCall}
    (applies : Request.Applies root keys (.call c)) :
    Confined root keys linking s (t.perform c).2 := by
  generalize hreply : t.perform c = reply
  obtain ⟨reply, u⟩ := reply
  cases reply with
  | error e =>
    rw [Store.perform_error hreply]
    exact h
  | ok a =>
    cases c with
    | get key | list kind ns selector =>
      obtain rfl := congrArg Prod.snd hreply
      exact h.of_objects rfl
    | create key o => exact h.of_child apart applies (Store.perform_create_ok hreply).2
    | update key o =>
      obtain ⟨_, _, _, written⟩ := Store.perform_update_ok hreply
      exact h.of_child apart applies written
    | updateStatus key o =>
      obtain rfl : key = root := applies
      obtain ⟨stored, hstored, _, written⟩ := Store.perform_updateStatus_ok hreply
      -- all but the status is taken from what is stored
      refine h.of_root (fun p hp => ?_) ⟨stored, hstored⟩ written
      obtain ⟨q, hq, hsame⟩ := h.root p hp
      obtain rfl := Option.some.inj (hq.symm.trans hstored)
      exact hsame.reported _ _
    | delete key => exact applies.elim

end Store.Confined

/-! ## §3. Requests -/

/-- The request deletes nothing, and writes nothing but the root and the keys. -/
def Request.Confined (root : Key) (keys : List Key) (r : Request) : Prop :=
  (∀ key, r ≠ .call (.delete key)) ∧ ∀ key, r.put? = some key → key = root ∨ key ∈ keys

theorem Request.Applies.confined {root : Key} {keys : List Key} {r : Request}
    (h : r.Applies root keys) : r.Confined root keys := by
  cases r with
  | call c =>
    cases c with
    | create key o | update key o =>
      refine ⟨fun _ => nofun, fun k hk => .inr ?_⟩
      rw [← Option.some.inj hk]
      exact h
    | updateStatus key o =>
      refine ⟨fun _ => nofun, fun k hk => .inl ?_⟩
      rw [← Option.some.inj hk]
      exact h
    | get | list => exact ⟨fun _ => nofun, fun _ => nofun⟩
    | delete key => exact h.elim
  | capabilities | isCancelled | clock | record | forget | linkedChildren | announce =>
    exact ⟨fun _ => nofun, fun _ => nofun⟩

theorem Request.confined_update_root (root : Key) (keys : List Key) (o : Object) :
    (Request.call (.update root o)).Confined root keys :=
  ⟨fun _ => nofun, fun _ hk => .inl (Option.some.inj hk).symm⟩

/-- What a pass from `w` has done so far keeps to the root and the keys. -/
structure Traced.Confined (w : World) (root : Key) (keys : List Key) (linking : Prop)
    (t : Traced) : Prop where
  follows : w.Follows t.world
  asked : ∀ x ∈ t.log, x.request.Confined root keys
  store : w.store.Confined root keys linking t.world.store

namespace Traced.Confined

variable {w : World} {root : Key} {keys : List Key} {linking : Prop} {t : Traced}

theorem start (alone : w.Alone) (root : Key) (keys : List Key) (linking : Prop) :
    Traced.Confined w root keys linking ⟨w, []⟩ :=
  ⟨.refl alone, fun _ h => absurd h List.not_mem_nil, .refl root keys linking w.store⟩

/-- The answer to a request does not matter, as long as the store keeps to its bounds. -/
theorem push (h : t.Confined w root keys linking) {r : Request} (confined : r.Confined root keys)
    (store : w.store.Confined root keys linking (World.handle r t.world).2.store) :
    (Scene.alone.handle r t).2.Confined w root keys linking := by
  refine ⟨h.follows.trans (h.follows.alone.follows r), fun x hx => ?_, store⟩
  rcases List.mem_append.mp hx with hx | hx
  · exact h.asked x hx
  · rw [List.mem_singleton.mp hx]
    exact confined

theorem step (h : t.Confined w root keys linking) (apart : root ∉ keys) {r : Request}
    (applies : r.Applies root keys) : (Scene.alone.handle r t).2.Confined w root keys linking := by
  refine h.push applies.confined ?_
  rcases h.follows.alone.store_handle r with hstore | ⟨c, rfl, hstore⟩
  · rw [hstore]
    exact h.store
  · rw [hstore]
    exact h.store.perform apart applies

end Traced.Confined

/-! ## §4. Passes -/

namespace Pass

variable {w : World} {keys : List Key} {linking : Prop} {t : Traced}

/-- A pass that keeps to its bounds, however it ends. -/
abbrev Confines {α : Type} (w : World) (root : Key) (keys : List Key) (linking : Prop)
    (p : Pass α) (t : Traced) : Prop :=
  p.Amid .alone (fun _ _ => True) t (fun _ u => u.Confined w root keys linking)
    fun _ u => u.Confined w root keys linking

/-- However it ends, what it leaves keeps to the bounds. -/
theorem Amid.confined_trace {α : Type} {p : Pass α} {root : Key}
    (h : p.Confines w root keys linking ⟨w, []⟩) :
    (p.trace w).Confined w root keys linking := by
  have hended := h.among (among_run (S := .alone) p ⟨w, []⟩)
  show (p.run Scene.alone.handle ⟨w, []⟩).2.Confined w root keys linking
  generalize p.run Scene.alone.handle ⟨w, []⟩ = run at hended
  obtain ⟨ended, t⟩ := run
  cases ended with
  | ok a => exact hended
  | error e => exact hended

/-- A pass that asks only to settle children and to report. -/
theorem OnlyIf.confines {α : Type} {p : Pass α} {root : Key}
    (h : p.OnlyIf w.capabilities.Found (Request.Applies root keys)) (apart : root ∉ keys)
    (start : t.Confined w root keys linking) : p.Confines w root keys linking t := by
  have hothers : Scene.alone.Keeps (Traced.Confined w root keys linking) := by
    rintro t _ ht rfl
    exact ht
  refine (h.amid hothers start fun r t ht applies => ⟨?_, ht.step apart applies⟩).mono
    (fun _ _ _ => trivial) (fun _ _ h => h) fun _ _ h => h
  cases r with
  | capabilities => exact ht.follows.capabilities
  | call | isCancelled | clock | record | forget | linkedChildren | announce => trivial

theorem common_applies (root : Root) (keys : List Key) :
    Common root (Request.Applies root.key keys) where
  get := trivial
  capabilities := trivial
  isCancelled := trivial
  clock := trivial
  record _ _ := trivial
  forget := trivial
  announce _ := trivial
  report _ := rfl

/-- Holding the root writes back what was read of it, with the marks of the cleanup added. -/
theorem confines_holdRoot (root : Root) (apart : root.key ∉ keys) (holds : linking)
    (linked : Roster String) (start : t.Confined w root.key keys linking)
    (untouched : t.world.store.objects = w.store.objects) :
    (holdRoot root linked).Confines w root.key keys linking t := by
  refine amid_call (fun _ _ => trivial) ?_ ?_
  case refine_2 =>
    rintro _ e u rfl hreply
    have hu := start.step apart (r := .call (.get root.key)) trivial
    rwa [hreply] at hu
  rintro t' stored u hsame hreply
  subst t'
  have hu := start.step apart (r := .call (.get root.key)) trivial
  rw [hreply] at hu
  have hworld : World.handle (.call (.get root.key)) t.world = (.ok stored, u.world) := by
    have hreply' : (Scene.alone.handle (.call (.get root.key)) t).1 = .ok stored :=
      congrArg Prod.fst hreply
    exact Prod.ext hreply' (congrArg (fun p => p.2.world) hreply)
  have hanswer : t.world.store.perform (.get root.key) = (.ok stored, u.world.store) :=
    start.follows.alone.answered hworld
  obtain ⟨hstored, hobjects⟩ : Table.get? t.world.store.objects root.key = stored ∧
      u.world.store.objects = t.world.store.objects :=
    ⟨Except.ok.inj (congrArg Prod.fst hanswer), (congrArg (fun p => p.2.objects) hanswer).symm⟩
  cases stored with
  | none => exact hu
  | some o =>
    cases hm : Finalizer.hold? o.metadata linked with
    | none =>
      simp only [hm]
      exact hu
    | some m =>
      simp only [hm]
      obtain rfl := Finalizer.held_of_some hm
      have hafter : (Scene.alone.handle (.call (.update root.key
          { o with metadata := Finalizer.held o.metadata linked })) u).2.Confined w root.key keys
            linking := by
        refine hu.push (Request.confined_update_root _ _ _) ?_
        rcases hu.follows.alone.store_handle (.call (.update root.key
          { o with metadata := Finalizer.held o.metadata linked })) with
          hkept | ⟨c, hcall, hput⟩
        · rw [hkept]
          exact hu.store
        · obtain rfl := Request.call.inj hcall
          rw [hput]
          -- the object that is stored is the one that was read
          have hhere : Table.get? u.world.store.objects root.key = some o := by
            rw [hobjects, hstored]
          have hperform := Store.perform_update (s := u.world.store)
            (o := { o with metadata := Finalizer.held o.metadata linked }) hhere
            (Finalizer.held_resourceVersion o.metadata linked) rfl
          rw [hperform]
          refine hu.store.of_root (fun p hp => ?_) ⟨o, hhere⟩ rfl
          rw [← untouched, hstored] at hp
          obtain rfl := Option.some.inj hp
          exact .held holds _ linked _
      refine amid_call (fun _ _ => trivial) ?_ ?_
      · rintro _ a v rfl hupdate
        rw [hupdate] at hafter
        exact hafter
      · rintro _ e v rfl hupdate
        rw [hupdate] at hafter
        exact hafter

theorem confines_holdIfLinked (root : Root) (apart : root.key ∉ keys) {settings : Settings}
    {linked : Roster String}
    (holds : settings.features.crossNamespaceCleanup = true ∧ linked ≠ [] → linking)
    (start : t.Confined w root.key keys linking)
    (untouched : t.world.store.objects = w.store.objects) :
    (holdIfLinked settings root linked).Confines w root.key keys linking t := by
  unfold holdIfLinked
  split
  · rename_i on
    obtain ⟨hon, hsome⟩ := Bool.and_eq_true_iff.mp on
    refine Amid.bind (confines_holdRoot root apart (holds ⟨hon, ?_⟩) linked start untouched)
      fun _ _ h => h
    rintro rfl
    exact absurd hsome (by decide)
  · exact start

end Pass

/-- Once the root is held, a pass settles children and reports. -/
theorem Plan.applies_goOn {τ : Type} [DecidableEq τ] (p : Plan τ) (settings : Settings)
    (caps : Capabilities) : (p.goOn settings).OnlyIf caps.Found
      (Request.Applies p.root.key ((p.children caps).map Child.key)) := by
  refine Plan.only_goOn (Pass.common_applies _ _) ?_ settings
  rintro _ rfl c hc
  have hkey := List.mem_map_of_mem (f := Child.key) hc
  exact .of_key trivial (fun _ => hkey) fun _ => hkey

namespace RootResource

/-- Cleanup is on, and the spec names a namespace other than the root's. -/
def Links (settings : Settings) (r : RootResource) : Prop :=
  settings.features.crossNamespaceCleanup = true ∧
    ∃ ns ∈ r.spec.namespaces, ns ≠ "" ∧ ns ≠ r.root.ns

/-- What a pass over a root object leaves, from what was there before it. -/
structure Confined (r : RootResource) (settings : Settings) (w : World) (t : Traced) : Prop where
  /-- Nothing is deleted, and nothing is written but the root and its children. -/
  asked : ∀ x ∈ t.log,
    x.request.Confined r.root.key ((r.children w.capabilities).map Child.key)
  /-- All else stays as it is, and of the root all but the status and, where there is something to
      hold it for, the marks of the cleanup. -/
  store : w.store.Confined r.root.key ((r.children w.capabilities).map Child.key)
    (r.Links settings) t.world.store
  /-- Where the spec is refused no call is made. -/
  refused : r.defaulted.validate ≠ .ok () → ∀ x ∈ t.log, ∀ c, x.request ≠ .call c

/-- A pass over a root of either kind that is not being deleted deletes nothing and writes nothing
    but the root and the children that are built for it, wherever faults or a shutdown cut it
    short, as long as nobody else writes.  All else in the store stays as it is, versions included,
    and of the root all but its version, its status and, where cleanup is on and the spec names a
    foreign namespace, the finalizer and the record.  Where the spec with its defaults is refused,
    no store call is made at all. -/
theorem confined_pass {settings : Settings} {r : RootResource}
    (alive : r.metadata.deletionTimestamp = none) {w : World} (alone : w.Alone) :
    r.Confined settings w ((r.pass settings).trace w) := by
  have apart : r.root.key ∉ (r.children w.capabilities).map Child.key := by
    intro hmem
    obtain ⟨c, _, hkey⟩ := List.mem_map.mp hmem
    exact c.key_ne_root r.root hkey
  have hstart := Traced.Confined.start alone r.root.key
    ((r.children w.capabilities).map Child.key) (r.Links settings)
  obtain ⟨τ, _, p, plans, hpass⟩ := r.exists_steps settings alive
  cases hcheck : r.defaulted.validate with
  | error e =>
    -- all that is asked for is to tell of the fault
    rw [hcheck] at hpass
    rw [hpass]
    have hconfined := hstart.step apart
      (r := .announce r.root (Pass.failedEvent (.invalidSpec e))) trivial
    refine ⟨hconfined.asked, hconfined.store, fun _ x hx c => ?_⟩
    rw [List.mem_singleton.mp hx]
    exact nofun
  | ok _ =>
    have hholds : settings.features.crossNamespaceCleanup = true ∧ p.linked ≠ [] →
        r.Links settings := by
      rintro ⟨on, hsome⟩
      obtain ⟨ns, hns⟩ := List.exists_mem_of_ne_nil _ hsome
      exact ⟨on, ns, RootResource.named_of_linked (plans.linked ▸ hns)⟩
    have hsteps : (p.steps settings).Confines w r.root.key
        ((r.children w.capabilities).map Child.key) (r.Links settings) ⟨w, []⟩ := by
      rw [p.steps_eq]
      rw [← plans.root, ← plans.children] at *
      refine Pass.Amid.bind (Pass.confines_holdIfLinked p.root apart hholds hstart rfl)
        fun _ t ht => ?_
      exact (p.applies_goOn settings w.capabilities).confines apart ht
    have hconfined : ((r.pass settings).trace w).Confined w r.root.key
        ((r.children w.capabilities).map Child.key) (r.Links settings) := by
      rw [hpass, hcheck]
      refine (Pass.Amid.warned hsteps (fun _ h => h) ?_).confined_trace
      rintro e t _ _ ht rfl
      exact ⟨trivial, ht.step apart trivial⟩
    exact ⟨hconfined.asked, hconfined.store, fun hrefused => absurd hcheck hrefused⟩

end RootResource

/-- The deployment of an endpoint picker that an earlier spec asked for. -/
def earlierPicker : Key := ⟨.deployment, "sims", "pool-epp"⟩

/-- A store with that deployment and with the root, whose first creation comes to nothing. -/
def cutWorld : World where
  store := { objects := (earlierPicker,
    { metadata := { name := some "pool-epp", ns := some "sims", resourceVersion := some "7" }
      data := .obj [("spec", .obj [("replicas", .int 2)])] }) :: linkedWorld.store.objects }
  disturbances := [{ call := .create, nth := 1, strike := .api "etcd is down" }]
  clock := "2024-05-01T00:00:00Z"

/-- The root is held, and the deployment is there as before. -/
theorem confined_pass_cutWorld :
    ((linkedInstall.pass linkedSettings).run World.handle cutWorld).1
        = .error (.store (.api linkedProxy "etcd is down")) ∧
      linkedInstall.Links linkedSettings ∧
      linkedInstall.Confined linkedSettings cutWorld
        ((linkedInstall.pass linkedSettings).trace cutWorld) ∧
      Table.get? ((linkedInstall.pass linkedSettings).trace cutWorld).world.store.objects
          earlierPicker
        = Table.get? cutWorld.store.objects earlierPicker := by
  have halone : cutWorld.Alone := by
    simp [World.Alone, cutWorld, Strike.NoWriter]
  have hconfined : linkedInstall.Confined linkedSettings cutWorld
      ((linkedInstall.pass linkedSettings).trace cutWorld) :=
    RootResource.confined_pass rfl halone
  have hchild : earlierPicker ∉ (linkedInstall.children cutWorld.capabilities).map Child.key := by
    decide +kernel
  have hlinks : linkedInstall.Links linkedSettings :=
    ⟨rfl, "sims", by decide, by decide, by decide⟩
  exact ⟨by decide +kernel, hlinks, hconfined,
    hconfined.store.others earlierPicker (by decide) hchild⟩

end Converge
