/-
  Converge.Proofs.Pass.Retry — a pass that was cut short can be made up for.

  A pass writes nothing back when it is cut short.  Still it does not matter how far it came: a
  root that is held is held by the next pass as it is, children that were applied are in line, and
  no part of a pass looks at what an earlier one did but at what the store holds.

  Main statements:
    * `Plan.again` — a pass from wherever an earlier one was cut short lays the same children.
    * `RootResource.retry_pass` — a complete pass after one that was cut short leaves what one
      undisturbed pass leaves, but for versions and transition times.
-/
import Converge.Proofs.Pass.Plan

namespace Converge

/-- The same is held under each key, but for versions and, under one key, transition times. -/
structure Faces.SameBut (root : Key) (F G : Faces) : Prop where
  other : ∀ k, k ≠ root → F k = G k
  root : (F root).map Object.timeless = (G root).map Object.timeless

namespace Plan

variable {τ : Type} [DecidableEq τ] {p : Plan τ} {settings : Settings} {caps : Capabilities}

/-! ## §1. What an undisturbed pass leaves -/

/-- What is held after a whole pass; the status of a root is left if it cannot be read. -/
def left (p : Plan τ) (settings : Settings) (caps : Capabilities) (now : String) (F : Faces)
    (o : Object) : Faces :=
  match p.reported? settings caps now F o with
  | some q => (p.laid settings caps F o).turn p.root.key q
  | none => p.laid settings caps F o

/-- How a whole pass ends. -/
def ending (p : Plan τ) (settings : Settings) (caps : Capabilities) (now : String) (F : Faces)
    (o : Object) : Except PassError NextLook :=
  if (p.reported? settings caps now F o).isSome then .ok (.after settings.requeueSecs)
  else .error .unreadableStatus

/-- Where nothing disturbs it, a pass leaves this, and notes all children. -/
theorem run_calm {w : World} (calm : w.Calm) (on : w.cancelled = false)
    (sound : p.Sound settings w.capabilities) {o : Object}
    (here : w.store.face p.root.key = some o) (root : Root) :
    ∃ w', (Pass.warned root (p.steps settings)).run World.handle w
        = (p.ending settings w.capabilities w.clock w.store.face o, w') ∧
      w.Leads (w.ledger.notedAll p.root.key (p.children w.capabilities))
        (p.left settings w.capabilities w.clock w.store.face o) w' := by
  have hends := ends_pass settings calm.alone sound.proper here root
  unfold ending left
  unfold Pass.Ends at hends
  generalize (Pass.warned root (p.steps settings)).run World.handle w = ended at hends
  obtain ⟨r, w'⟩ := ended
  refine ⟨w', ?_⟩
  cases r with
  | ok look =>
    obtain ⟨rfl, _, q, hq, leads⟩ := hends
    simp only [hq]
    exact ⟨rfl, leads⟩
  | error e =>
    rcases hends with ⟨rfl, hnone, leads⟩ | ⟨hoff, _⟩
    · simp only [hnone]
      exact ⟨rfl, leads⟩
    · have hstopped := hoff calm
      rw [on] at hstopped
      exact Bool.noConfusion hstopped

theorem left_of_ne (now : String) (F : Faces) (o : Object) {k : Key} (h : k ≠ p.root.key) :
    p.left settings caps now F o k = p.laid settings caps F o k := by
  unfold left
  cases p.reported? settings caps now F o with
  | none => rfl
  | some q => exact Faces.turn_of_ne _ (Ne.symm h) q

theorem left_root (now : String) (F : Faces) (o : Object) :
    p.left settings caps now F o p.root.key
      = some ((p.reported? settings caps now F o).getD (o.heldUnder settings p.linked)) := by
  unfold left
  cases p.reported? settings caps now F o with
  | none => exact p.laid_root settings caps F o
  | some q => exact Faces.turn_self _ _ q

/-! ## §2. A pass after one that was cut short -/

/-- From wherever a pass was cut short, the root is held and the children are laid as from the
    start; only the root may have been reported on already. -/
theorem again (sound : p.Sound settings caps) {now : String} {F G : Faces} {o : Object}
    (here : F p.root.key = some o) (partway : p.Partway settings caps now F o G) :
    ∃ x, G p.root.key = some x ∧
      (x.heldUnder settings p.linked = o.heldUnder settings p.linked ∧
          p.laid settings caps G x = p.laid settings caps F o ∨
        p.reported? settings caps now F o = some x ∧ x.heldUnder settings p.linked = x ∧
          p.laid settings caps G x = (p.laid settings caps F o).turn p.root.key x) := by
  rcases partway with rfl | ⟨es, hes, rfl⟩ | ⟨q, hq, rfl⟩
  case inl => exact ⟨o, here, .inl ⟨rfl, rfl⟩⟩
  case inr.inl =>
    -- held already, and the children that were applied are applied again
    have helse : ∀ e ∈ es, e.key ≠ p.root.key := fun e he => e.key_ne_root p.root
    have hroot : (F.turn p.root.key (o.heldUnder settings p.linked)).lay es p.root.key
        = some (o.heldUnder settings p.linked) := by
      rw [Faces.lay_of_not_mem _ helse, Faces.turn_self]
    have htwice := Object.heldUnder_of_held (o := o) (q := o.heldUnder settings p.linked)
      sound.plain rfl
    refine ⟨_, hroot, .inl ⟨htwice, ?_⟩⟩
    unfold laid
    rw [htwice, Faces.turn_of_held hroot, Faces.lay_lay sound.once sound.proper hes]
  case inr.inr =>
    -- a report changes no metadata, so the root counts as held
    have hheld := Object.heldUnder_of_held sound.plain (Report.report?_metadata hq)
    have hroot := Faces.turn_self (p.laid settings caps F o) p.root.key q
    refine ⟨q, hroot, .inr ⟨hq, hheld, ?_⟩⟩
    show Faces.lay (Faces.turn _ p.root.key (q.heldUnder settings p.linked)) _ = _
    rw [hheld, Faces.turn_of_held hroot, Faces.lay_turn _ (p.apart caps)]
    unfold laid
    rw [Faces.lay_lay sound.once sound.proper List.prefix_rfl]

/-- So a whole pass from there, at any time, ends alike and leaves the same but for times. -/
theorem left_again (sound : p.Sound settings caps) {now : String} {F G : Faces} {o : Object}
    (here : F p.root.key = some o) (partway : p.Partway settings caps now F o G) (t : String) :
    ∃ x, G p.root.key = some x ∧
      p.ending settings caps t G x = p.ending settings caps now F o ∧
      Faces.SameBut p.root.key (p.left settings caps t G x) (p.left settings caps now F o) := by
  obtain ⟨x, hx, hagain⟩ := again sound here partway
  refine ⟨x, hx, ?_⟩
  rcases hagain with ⟨hheld, hlaid⟩ | ⟨hq, hheld, hlaid⟩
  · -- the same is reported, only now at another time
    have hreports : (p.reported? settings caps t G x).map Object.timeless
        = (p.reported? settings caps now F o).map Object.timeless := by
      unfold reported?
      rw [hheld, hlaid]
      exact Report.report?_timeless (sound.lawful _) t now _
    have hsome : (p.reported? settings caps t G x).isSome
        = (p.reported? settings caps now F o).isSome := by
      rw [← Option.isSome_map, hreports, Option.isSome_map]
    refine ⟨?_, ?_, ?_⟩
    · unfold ending
      rw [hsome]
    · intro k hk
      rw [left_of_ne _ _ _ hk, left_of_ne _ _ _ hk, hlaid]
    · rw [left_root, left_root, hheld]
      revert hreports
      cases p.reported? settings caps t G x <;> cases p.reported? settings caps now F o
      · exact fun _ => rfl
      · exact fun h => absurd h nofun
      · exact fun h => absurd h nofun
      · exact id
  · -- it was reported before the pass was cut short, and is not reported again
    have hsettled : p.reported? settings caps t G x = some x := by
      unfold reported?
      rw [hheld, hlaid, report_turn]
      exact Report.report?_of_settled (Report.settled_report? (sound.lawful _) hq) t
    have hsame : p.left settings caps t G x = p.left settings caps now F o := by
      unfold left
      rw [hsettled, hq]
      show (p.laid settings caps G x).turn p.root.key x = _
      rw [hlaid, Faces.turn_turn]
    refine ⟨?_, ?_, ?_⟩
    · unfold ending
      rw [hsettled, hq]
    · intro k _
      rw [hsame]
    · rw [hsame]

/-- However a pass ended, it came some part of the way. -/
theorem exists_partway {w : World} (alone : w.Alone) (sound : p.Sound settings w.capabilities)
    {o : Object} (here : w.store.face p.root.key = some o) (root : Root) :
    ∃ ds G, ds <+: p.children w.capabilities ∧
      p.Partway settings w.capabilities w.clock w.store.face o G ∧
      w.Leads (w.ledger.notedAll p.root.key ds) G
        ((Pass.warned root (p.steps settings)).run World.handle w).2 := by
  have hends := ends_pass settings alone sound.proper here root
  unfold Pass.Ends at hends
  generalize (Pass.warned root (p.steps settings)).run World.handle w = ended at hends
  obtain ⟨r, w'⟩ := ended
  cases r with
  | ok look =>
    obtain ⟨_, _, q, hq, leads⟩ := hends
    exact ⟨_, _, List.prefix_rfl, .inr (.inr ⟨q, hq, rfl⟩), leads⟩
  | error e =>
    rcases hends with ⟨_, _, leads⟩ | ⟨_, ds, G, hds, hG, leads⟩
    · exact ⟨_, _, List.prefix_rfl, .inr (.inl ⟨_, List.prefix_rfl, rfl⟩), leads⟩
    · exact ⟨ds, G, hds, hG, leads⟩

end Plan

/-! ## §3. Either kind of root -/

/-- A pass over a root of either kind is struck by faults or by a shutdown at any of its calls, a
    struck write having reached the store or not, while nobody else writes.  A pass that nothing
    disturbs after it, at any time, then ends like one that had run in its place, and leaves the
    same store but for versions and, on the root, transition times; and the ledger lists the same
    children. -/
theorem RootResource.retry_pass {settings : Settings} {r : RootResource}
    (alive : r.metadata.deletionTimestamp = none)
    (plain : settings.features.crossNamespaceCleanup = true →
      ∀ ns ∈ r.spec.namespaces, ',' ∉ ns.toList ∧ Text.trim ns = ns)
    (accepted : r.defaulted.validate = .ok ()) {w : World} (calm : w.Calm)
    (on : w.cancelled = false) (once : ((r.children w.capabilities).map Child.key).Nodup)
    (here : (Table.get? w.store.objects r.root.key).isSome = true) {strikes : List Disturbance}
    (alone : ∀ d ∈ strikes, d.strike.NoWriter) {e : Except PassError NextLook} {cut : World}
    (struck : (r.pass settings).run World.handle { w with disturbances := strikes } = (e, cut))
    (t : String) :
    ∃ ending whole again,
      (r.pass settings).run World.handle w = (ending, whole) ∧
      (r.pass settings).run World.handle
        { cut with disturbances := [], cancelled := false, clock := t } = (ending, again) ∧
      Faces.SameBut r.root.key again.store.face whole.store.face ∧
      ∀ root k, Table.get? (again.ledger.children root) k
        = Table.get? (whole.ledger.children root) k := by
  obtain ⟨τ, _, p, hroot, hchildren, hsound, hpass⟩ := exists_plan settings alive plain
  have sound : p.Sound settings w.capabilities := hsound _ once
  have hsteps : r.pass settings = Pass.warned r.root (p.steps settings) := by
    rw [hpass, accepted]
    rfl
  rw [← hroot] at here
  obtain ⟨o, ho⟩ := Store.exists_face here
  rw [hsteps] at struck ⊢
  -- the undisturbed pass in place of the one that is struck
  obtain ⟨whole, hwhole, hleft⟩ := Plan.run_calm calm on sound ho r.root
  let v : World := { w with disturbances := strikes }
  obtain ⟨ds, G, hds, hG, hcut⟩ := Plan.exists_partway (w := v) alone sound ho r.root
  rw [struck] at hcut
  -- the undisturbed pass after it
  obtain ⟨x, hx, hend, hsame⟩ := Plan.left_again sound ho hG t
  let u : World := { cut with disturbances := [], cancelled := false, clock := t }
  have hcaps : u.capabilities = w.capabilities := by
    unfold World.capabilities
    rw [show u.lacking = w.lacking from hcut.lacking]
  have hface : u.store.face = G := hcut.face
  have hledger : u.ledger = w.ledger.notedAll p.root.key ds := hcut.ledger
  obtain ⟨again, hagain, hthen⟩ := Plan.run_calm (w := u) rfl rfl (by rw [hcaps]; exact sound)
    (by rw [hface]; exact hx) r.root
  rw [hcaps, hface, hledger] at hthen
  rw [hcaps, hface, hend] at hagain
  refine ⟨_, whole, again, hwhole, hagain, ?_, ?_⟩
  · rw [hthen.face, hleft.face, ← hroot]
    exact hsame
  · intro root k
    rw [hthen.ledger, hleft.ledger]
    exact Ledger.children_notedAll_again _ _ sound.once (fun d hd => hds.subset hd) root k

/-- The answer to the first creation is lost: it reports a conflict after it was made. -/
def lostCreation : List Disturbance :=
  [{ call := .create, nth := 1, after := true, strike := .conflict }]

theorem retry_pass_lostCreation :
    ∃ cut ending whole again,
      (linkedInstall.pass linkedSettings).run World.handle
        { linkedWorld with disturbances := lostCreation }
          = (.error (.store (.conflict ⟨.service, "sims", "pool-proxy"⟩)), cut) ∧
      (linkedInstall.pass linkedSettings).run World.handle linkedWorld = (ending, whole) ∧
      (linkedInstall.pass linkedSettings).run World.handle
        { cut with disturbances := [], cancelled := false, clock := "2024-05-02T00:00:00Z" }
          = (ending, again) ∧
      Faces.SameBut linkedInstall.root.key again.store.face whole.store.face ∧
      ∀ root k, Table.get? (again.ledger.children root) k
        = Table.get? (whole.ledger.children root) k := by
  let cut := ((linkedInstall.pass linkedSettings).run World.handle
    { linkedWorld with disturbances := lostCreation }).2
  have hcut : (linkedInstall.pass linkedSettings).run World.handle
      { linkedWorld with disturbances := lostCreation }
        = (.error (.store (.conflict ⟨.service, "sims", "pool-proxy"⟩)), cut) := rfl
  have halone : ∀ d ∈ lostCreation, d.strike.NoWriter := by
    simp [lostCreation, Strike.NoWriter]
  have hcalm : linkedWorld.Calm := rfl
  obtain ⟨ending, whole, again, hwhole, hagain, hstore, hledger⟩ := RootResource.retry_pass rfl
    (fun _ => linkedInstall_plain) rfl hcalm rfl linkedInstall_once rfl halone hcut
    "2024-05-02T00:00:00Z"
  exact ⟨cut, ending, whole, again, hcut, hwhole, hagain, hstore, hledger⟩

end Converge
