/-
  Converge.Proofs.Pass.Quiet — a pass that succeeded leaves the next one nothing to do.

  A pass is quiet where all it does to the store is to read it, and where it tells nothing.  The
  second of two passes is quiet because each part of it finds what the same part of the first one
  left: the root is held, the children are in line, and the status is what would be reported.

  Main statements:
    * `Plan.quiet_steps` — where everything is settled, a pass is quiet.
    * `RootResource.quiet_pass` — after a pass that succeeded everything is settled.
-/
import Converge.Proofs.Pass.Plan

namespace Converge

/-! ## §1. Quiet passes -/

/-- The store after a number of reads. -/
def Store.countReads (s : Store) (n : Nat) : Store := { s with reads := s.reads + n }

/-- The world after a number of reads, with another ledger. -/
def World.reread (w : World) (n : Nat) (l : Ledger) : World :=
  { w with store := w.store.countReads n, ledger := l }

theorem World.reread_reread (w : World) (n m : Nat) (k l : Ledger) :
    (w.reread n k).reread m l = w.reread (n + m) l := by
  unfold reread Store.countReads
  rw [Nat.add_assoc]

namespace Pass

variable {α β : Type} {w : World}

/-- The pass gives `a`, and only reads. -/
def Quiet (p : Pass α) (w : World) (a : α) : Prop :=
  ∃ n l, p.run World.handle w = (.ok a, w.reread n l)

theorem quiet_done (a : α) : (Pass.done a).Quiet w a := ⟨0, w.ledger, rfl⟩

theorem Quiet.bind {p : Pass α} {f : α → Pass β} {a : α} {b : β} (h : p.Quiet w a)
    (next : ∀ n l, (f a).Quiet (w.reread n l) b) : (p.bind f).Quiet w b := by
  obtain ⟨n, k, hp⟩ := h
  obtain ⟨m, l, hf⟩ := next n k
  refine ⟨n + m, l, ?_⟩
  rw [run_bind, hp, ← World.reread_reread w n m k l]
  exact hf

theorem quiet_get (calm : w.Calm) (key : Key) :
    (call (.get key)).Quiet w (Table.get? w.store.objects key) := by
  refine ⟨1, w.ledger, ?_⟩
  show (ofReply (World.handle (.call (.get key)) w).1).run World.handle
    (World.handle (.call (.get key)) w).2 = _
  rw [World.handle_call calm]
  rfl

/-! ## §2. The parts of a pass -/

theorem quiet_holdRoot (calm : w.Calm) {root : Root} {o : Object}
    (here : Table.get? w.store.objects root.key = some o) {linked : Roster String}
    (held : Finalizer.hold? o.metadata linked = none) : (holdRoot root linked).Quiet w false := by
  have hget := quiet_get calm root.key
  rw [here] at hget
  refine Quiet.bind hget fun n l => ?_
  simp only [held]
  exact quiet_done false

theorem quiet_holdIfLinked (calm : w.Calm) {root : Root} {o : Object}
    (here : Table.get? w.store.objects root.key = some o) {settings : Settings}
    {linked : Roster String}
    (held : (settings.features.crossNamespaceCleanup && !linked.isEmpty) = true →
      Finalizer.hold? o.metadata linked = none) :
    (holdIfLinked settings root linked).Quiet w () := by
  unfold holdIfLinked
  by_cases on : (settings.features.crossNamespaceCleanup && !linked.isEmpty) = true
  · rw [if_pos on]
    exact Quiet.bind (quiet_holdRoot calm here (held on)) fun _ _ => quiet_done ()
  · rw [if_neg on]
    exact quiet_done ()

theorem quiet_settle {c : Child} {o : Object} (inLine : c.amend? o = none) :
    (settle c (some o)).Quiet w .unchanged := by
  simp only [settle, inLine]
  exact quiet_done _

theorem quiet_apply (calm : w.Calm) {c : Child} {o : Object}
    (here : Table.get? w.store.objects c.key = some o) (inLine : c.amend? o = none) (root : Key) :
    (apply root c).Quiet w .unchanged := by
  have hget := quiet_get calm c.key
  rw [here] at hget
  refine Quiet.bind hget fun n l => Quiet.bind (quiet_settle inLine) fun m k => ?_
  exact ⟨0, k.noted root c, rfl⟩

/-- Children that are in line are only read. -/
theorem quiet_applyAll (calm : w.Calm) {cs : List Child} (on : cs ≠ [] → w.cancelled = false)
    (inLine : ∀ c ∈ cs, ∃ o, Table.get? w.store.objects c.key = some o ∧ c.amend? o = none)
    (root : Key) (t : Tally) :
    (applyAll root cs t).Quiet w { t with unchanged := t.unchanged + cs.length } := by
  induction cs generalizing w t with
  | nil => exact quiet_done t
  | cons c cs ih =>
    obtain ⟨o, hget, hline⟩ := inLine c (by simp)
    show (if w.cancelled = true then .fail .cancelled else (apply root c).bind fun outcome =>
      applyAll root cs (t.count outcome) : Pass Tally).Quiet w _
    rw [on (by simp), if_neg Bool.false_ne_true]
    refine Quiet.bind (quiet_apply calm hget hline root) fun n l => ?_
    have hrest := @ih (w.reread n l) calm (fun _ => on (by simp))
      (fun d hd => inLine d (List.mem_cons_of_mem _ hd)) (t.count .unchanged)
    rw [List.length_cons, Nat.add_comm cs.length 1, ← Nat.add_assoc]
    exact hrest

theorem quiet_observe (calm : w.Calm) (keys : List Key) :
    (observe keys).Quiet w (keys.map fun k => Observation.ofObject k (w.store.face k)) := by
  induction keys generalizing w with
  | nil => exact quiet_done []
  | cons key keys ih =>
    refine Quiet.bind (quiet_get calm key) fun n l => ?_
    refine Quiet.bind (@ih (w.reread n l) calm) fun m k => ?_
    rw [List.map_cons]
    have hface := observation_face key (Table.get? w.store.objects key)
    show (Pass.done (_ :: _)).Quiet _ (Observation.ofObject key _ :: _)
    rw [← hface]
    exact quiet_done _

theorem quiet_applyAndObserve (calm : w.Calm) {cs : List Child}
    (on : cs ≠ [] → w.cancelled = false)
    (inLine : ∀ c ∈ cs, ∃ o, Table.get? w.store.objects c.key = some o ∧ c.amend? o = none)
    (root : Root) :
    (applyAndObserve root cs).Quiet w ({ unchanged := 0 + cs.length },
      (Plan.tracked cs).map fun k => Observation.ofObject k (w.store.face k)) := by
  refine Quiet.bind (quiet_applyAll calm on inLine root.key {}) fun n l => ?_
  have hobserve := @quiet_observe (w.reread n l) calm (Plan.tracked cs)
  exact Quiet.bind hobserve fun _ _ => quiet_done _

theorem quiet_writeStatus {τ : Type} [DecidableEq τ] (calm : w.Calm) {r : Report τ} {root : Key}
    {o : Object} (here : Table.get? w.store.objects root = some o) (settled : r.Settled o)
    (now : String) :
    (writeStatus r.form root r.generation r.verdict now r.change).Quiet w .unchanged := by
  obtain ⟨status, hstored, hnext⟩ := settled
  have hget := quiet_get calm root
  rw [here] at hget
  refine Quiet.bind hget fun n l => ?_
  simp only [hstored]
  show (if r.next now status = status then .done .unchanged else _ : Pass StatusWrite).Quiet _ _
  rw [if_pos (hnext now)]
  exact quiet_done _

theorem quiet_warned {p : Pass α} (root : Root) {a : α} (h : p.Quiet w a) :
    (warned root p).Quiet w a := by
  obtain ⟨n, l, hp⟩ := h
  refine ⟨n, l, ?_⟩
  show (p.attempt.bind _).run World.handle w = _
  rw [run_bind, run_attempt, hp]
  rfl

end Pass

/-! ## §3. The whole -/

/-- Where the root is held, the children are in line and the status is what would be reported, a
    pass is quiet. -/
theorem Plan.quiet_steps {τ : Type} [DecidableEq τ] {p : Plan τ} {settings : Settings} {w : World}
    (calm : w.Calm) (on : p.children w.capabilities ≠ [] → w.cancelled = false) {o : Object}
    (here : Table.get? w.store.objects p.root.key = some o)
    (held : (settings.features.crossNamespaceCleanup && !p.linked.isEmpty) = true →
      Finalizer.hold? o.metadata p.linked = none)
    (inLine : ∀ c ∈ p.children w.capabilities,
      ∃ o, Table.get? w.store.objects c.key = some o ∧ c.amend? o = none)
    (settled : (p.report w.capabilities w.store.face).Settled o) :
    (p.steps settings).Quiet w (.after settings.requeueSecs) := by
  refine Pass.Quiet.bind (Pass.quiet_holdIfLinked calm here held) fun n l => ?_
  show ((Pass.applyAndObserve p.root (p.children w.capabilities)).bind fun seen =>
    (Pass.request .clock).bind fun now =>
      (Pass.writeStatus p.form p.root.key p.generation (Verdict.ofObservations p.text seen.2) now
        (p.change seen.2)).bind fun outcome => Pass.finish settings p.root seen.1 outcome).Quiet
    (w.reread n l) _
  have hchildren := @Pass.quiet_applyAndObserve (w.reread n l) calm _ on inLine p.root
  refine Pass.Quiet.bind hchildren fun m k => ?_
  rw [World.reread_reread]
  let r := p.report w.capabilities w.store.face
  show ((Pass.writeStatus r.form p.root.key r.generation r.verdict w.clock r.change).bind
    fun outcome => Pass.finish settings p.root
      { unchanged := 0 + (p.children w.capabilities).length } outcome).Quiet _ _
  have hstatus := @Pass.quiet_writeStatus (w.reread (n + m) k) _ _ calm r _ _ here settled w.clock
  exact Pass.Quiet.bind hstatus fun _ _ => Pass.quiet_done _

/-- What a pass that succeeded leaves: everything is settled, and the next pass is quiet. -/
theorem Plan.quiet_of_done {τ : Type} [DecidableEq τ] {p : Plan τ} {settings : Settings}
    {w w' : World} (sound : p.Sound settings w.capabilities) (calm : w.Calm)
    (on : p.children w.capabilities ≠ [] → w.cancelled = false) {o q : Object} {l : Ledger}
    (reported : p.reported? settings w.capabilities w.clock w.store.face o = some q)
    (leads : w.Leads l ((p.laid settings w.capabilities w.store.face o).turn p.root.key q) w')
    (t : String) :
    (p.steps settings).Quiet { w' with clock := t } (.after settings.requeueSecs) := by
  obtain ⟨hcalm, hsame⟩ := leads.calm calm
  have hcaps : World.capabilities { w' with clock := t } = w.capabilities :=
    World.capabilities_of_lacking leads.lacking
  have hroot : w'.store.face p.root.key = some q := by rw [leads.face, Faces.turn_self]
  obtain ⟨x, hx, rfl⟩ := Store.exists_of_face hroot
  have hsettled : (p.report w.capabilities w'.store.face).Settled x := by
    rw [leads.face, report_turn]
    have hface := Report.settled_report? (sound.lawful _) reported
    exact hface
  refine quiet_steps (w := { w' with clock := t }) hcalm ?_ hx ?_ ?_ ?_
  · rw [hcaps]
    exact fun h => hsame.trans (on h)
  · -- the version of the root plays no part in whether it is held
    intro hon
    have hnone := Object.hold?_of_held sound.plain (Report.report?_metadata reported) hon
    obtain ⟨hfinalizer, hknown⟩ := Finalizer.hold?_eq_none_iff.mp hnone
    exact Finalizer.hold?_eq_none_iff.mpr ⟨hfinalizer, hknown⟩
  · -- each child finds what it left itself when it was applied
    rw [hcaps]
    intro c hc
    have hface : w'.store.face c.key = some (c.applied
        (w.store.face.turn p.root.key (o.heldUnder settings p.linked) c.key)) := by
      rw [leads.face, Faces.turn_of_ne _ (Ne.symm (c.key_ne_root _))]
      exact Faces.lay_of_mem _ sound.once hc
    obtain ⟨y, hy, happlied⟩ := Store.exists_of_face hface
    refine ⟨y, hy, ?_⟩
    have hline := Child.amend?_applied (sound.proper c hc)
      (w.store.face.turn p.root.key (o.heldUnder settings p.linked) c.key)
    rw [← happlied, Child.amend?_face] at hline
    exact Option.map_eq_none_iff.mp hline
  · rw [hcaps]
    exact hsettled

/-- A pass over a root of either kind succeeded, in a world that nothing disturbs.  The same pass
    at any other time then succeeds and writes nothing: all that changes in the store is the count
    of reads.  Nor does it tell anything. -/
theorem RootResource.quiet_pass {settings : Settings} {r : RootResource}
    (alive : r.metadata.deletionTimestamp = none)
    (plain : settings.features.crossNamespaceCleanup = true →
      ∀ ns ∈ r.spec.namespaces, ',' ∉ ns.toList ∧ Text.trim ns = ns)
    {w w' : World} (calm : w.Calm) (once : ((r.children w.capabilities).map Child.key).Nodup)
    (here : (Table.get? w.store.objects r.root.key).isSome = true) {look : NextLook}
    (first : (r.pass settings).run World.handle w = (.ok look, w')) (t : String) :
    ∃ again, (r.pass settings).run World.handle { w' with clock := t } = (.ok look, again) ∧
      again.store = { w'.store with reads := again.store.reads } ∧ again.events = w'.events := by
  obtain ⟨τ, _, p, hroot, hchildren, hsound, hpass⟩ := exists_plan settings alive plain
  have sound : p.Sound settings w.capabilities := hsound _ once
  rw [← hroot] at here
  obtain ⟨o, ho⟩ := Store.exists_face here
  cases hcheck : r.defaulted.validate with
  | error e =>
    -- then the first pass had failed
    have hfails : ∃ w'', (r.pass settings).run World.handle w = (.error (.invalidSpec e), w'') := by
      rw [hpass, hcheck]
      exact ⟨_, rfl⟩
    obtain ⟨w'', hfails⟩ := hfails
    rw [hfails] at first
    exact absurd (congrArg Prod.fst first) nofun
  | ok _ =>
    have hsteps : r.pass settings = Pass.warned r.root (p.steps settings) := by
      rw [hpass, hcheck]
      rfl
    rw [hsteps] at first ⊢
    obtain ⟨rfl, hon, q, hq, leads⟩ :=
      (Plan.ends_pass settings calm.alone sound.proper ho r.root).of_ok first
    obtain ⟨n, l, hagain⟩ :=
      Pass.quiet_warned r.root (Plan.quiet_of_done sound calm (hon calm) hq leads t)
    exact ⟨_, hagain, rfl, rfl⟩

theorem quiet_pass_linkedInstall :
    ∃ first again,
      (linkedInstall.pass linkedSettings).run World.handle linkedWorld
        = (.ok (.after 300), first) ∧
      (linkedInstall.pass linkedSettings).run World.handle
        { first with clock := "2024-05-02T00:00:00Z" } = (.ok (.after 300), again) ∧
      again.store = { first.store with reads := again.store.reads } ∧
      again.events = first.events := by
  let first := ((linkedInstall.pass linkedSettings).run World.handle linkedWorld).2
  have hfirst : (linkedInstall.pass linkedSettings).run World.handle linkedWorld
      = (.ok (.after 300), first) := rfl
  have hcalm : linkedWorld.Calm := rfl
  obtain ⟨again, hagain, hstore, hevents⟩ := RootResource.quiet_pass rfl
    (fun _ => linkedInstall_plain) hcalm linkedInstall_once rfl hfirst "2024-05-02T00:00:00Z"
  exact ⟨first, again, hfirst, hagain, hstore, hevents⟩

end Converge
