/-
  Converge.Proofs.Pass.Readiness — what a pass says about the readiness of a root.

  A pass applies the deployments of a root, reads them back and reports on the root in view of what
  it read.  As long as nobody else writes, what it reads is what it has just applied: each
  deployment asks for the replicas of its child, and has the status that it had before.

  Main statements:
    * `Child.shows_applied` — what is read of a deployment that was just applied.
    * `RootResource.readiness_pass` — the ready condition that a pass leaves.
-/
import Converge.Proofs.Pass.Plan
import Converge.Proofs.Status.Verdict

namespace Converge

/-! ## §1. Deployments that were applied -/

/-- The ready replicas that are held for a deployment. -/
def Faces.readyReplicas (F : Faces) (key : Key) : Int :=
  ((F key).map Object.readyReplicas).getD 0

theorem Store.readyReplicas_face (s : Store) (key : Key) :
    s.face.readyReplicas key = s.readyReplicas key := by
  unfold readyReplicas Faces.readyReplicas face
  cases Table.get? s.objects key <;> rfl

/-- Applying a child leaves the ready replicas as they are. -/
theorem Child.readyReplicas_applied {c : Child} (proper : c.Proper) (cur : Option Object) :
    (c.applied cur).readyReplicas = (cur.map Object.readyReplicas).getD 0 := by
  have hstatus := c.applied_status proper cur
  cases cur with
  | none => exact Object.readyReplicas_of_none hstatus
  | some o => exact Object.readyReplicas_of_status hstatus

/-- What is read of a deployment that was just applied. -/
theorem Child.shows_applied {c : Child} (proper : c.Proper) {d : Deployment}
    (body : c.body = .deployment d) {cur : Option Object} {n : Int32}
    (counted : (cur.map Object.readyReplicas).getD 0 = n.toInt) :
    (Observation.ofObject c.key (some (c.applied cur))).Shows (c.key, d) n.toInt where
  key := rfl
  desired := Observation.desired_ofObject c.key body (Child.inLine_applied proper cur)
  ready := by
    have hready := (Child.readyReplicas_applied proper cur).trans counted
    exact (Observation.ready_ofObject c.key hready).trans hready

/-! ## §2. Plans -/

namespace RootResource

section Plans

variable {r : RootResource} {τ : Type} {p : Plan τ} (plans : r.Plans p) (settings : Settings)
  (caps : Capabilities) (F : Faces) (o : Object)

include plans

/-- A deployment that is built is held as it was applied to what was there. -/
theorem Plans.exists_applied {e : Key × Deployment}
    (he : e ∈ Child.deployments (r.children caps)) :
    ∃ c : Child, c.Proper ∧ c.key = e.1 ∧ c.body = .deployment e.2 ∧
      p.laid settings caps F o e.1 = some (c.applied (F e.1)) := by
  obtain ⟨c, hc, hkey, hbody⟩ := Child.mem_deployments he
  have hproper : c.Proper := plans.proper caps c (by rw [plans.children]; exact hc)
  have hroot : p.root.key ≠ c.key := Ne.symm (c.key_ne_root p.root)
  let G := F.turn p.root.key (o.heldUnder settings p.linked)
  have hlay : G.lay (r.children caps) c.key = some (c.applied (G c.key)) :=
    G.lay_of_tracks (r.defaulted.children_tracks r.root caps)
      (r.defaulted.tracked_nodup r.root caps) hc (by rw [hbody]; rfl)
  have hbefore : G c.key = F c.key := Faces.turn_of_ne _ hroot _
  refine ⟨c, hproper, hkey, hbody, ?_⟩
  unfold Plan.laid
  rw [plans.children, ← hkey, hlay, hbefore]

theorem Plans.readyReplicas_laid {e : Key × Deployment}
    (he : e ∈ Child.deployments (r.children caps)) :
    (p.laid settings caps F o).readyReplicas e.1 = F.readyReplicas e.1 := by
  obtain ⟨c, hproper, _, _, hlaid⟩ := plans.exists_applied settings caps F o he
  unfold Faces.readyReplicas
  rw [hlaid, Option.map_some, Option.getD_some, Child.readyReplicas_applied hproper]

/-- The verdict on the deployments that were just applied. -/
theorem Plans.verdict (ready : Key → Int)
    (counted : ∀ e ∈ Child.deployments (r.children caps),
      F.readyReplicas e.1 = ready e.1 ∧ ∃ n : Int32, ready e.1 = n.toInt) :
    (p.report caps (p.laid settings caps F o)).verdict
      = match Verdict.lagging? ready (Child.deployments (r.children caps)) with
        | none => ⟨true, p.text.readyReason, p.text.readyMessage⟩
        | some e => ⟨false, p.text.notReadyReason, Verdict.laggingText ready e⟩ := by
  have htracked : Plan.tracked (p.children caps)
      = (Child.deployments (r.children caps)).map Prod.fst := by
    rw [plans.children]
    exact r.defaulted.tracked_eq r.root caps
  show Verdict.ofObservations p.text ((Plan.tracked (p.children caps)).map _) = _
  rw [htracked, List.map_map]
  refine Verdict.ofObservations_of_shows p.text
    (fun k => Observation.ofObject k (p.laid settings caps F o k)) ?_
  intro e he
  obtain ⟨hready, n, hn⟩ := counted e he
  obtain ⟨c, hproper, hkey, hbody, hlaid⟩ := plans.exists_applied settings caps F o he
  have hshows := Child.shows_applied hproper hbody (hready.trans hn)
  rw [← hn, hkey] at hshows
  rw [hlaid]
  exact hshows

end Plans

/-! ## §3. Passes -/

/-- What is reported on a root whose children are as the store has them. -/
structure Reported (r : RootResource) (caps : Capabilities) (s : Store) : Prop where
  /-- Exactly the deployments are waited for, in the order of the build. -/
  tracked : ((r.children caps).filter (·.tracked)).map Child.key
    = (Child.deployments (r.children caps)).map Prod.fst
  /-- The first ready condition is true if all deployments have the ready replicas that they ask
      for.  Otherwise it is false, and names the first that has not. -/
  condition : ∃ q cs c, Table.get? s.objects r.root.key = some q ∧
    r.root.kind.conditions? q.data = some cs ∧
    Condition.find? cs Condition.readyType = some c ∧
    (c.status = .yes ↔ ∀ e ∈ Child.deployments (r.children caps),
      s.readyReplicas e.1 = e.2.replicas.toInt) ∧
    ∀ e, Verdict.lagging? s.readyReplicas (Child.deployments (r.children caps)) = some e →
      c.status = .no ∧ c.message = Verdict.laggingText s.readyReplicas e

/-- A pass over a root that is there and not being deleted, of either kind, reports on all
    deployments that are built for it and on nothing else.  As long as nobody else writes, and
    where the stored counts have 32 bits, the ready condition is true exactly if each deployment
    has as many ready replicas as its child asks for. -/
theorem readiness_pass {settings : Settings} {r : RootResource}
    (alive : r.metadata.deletionTimestamp = none) {w w' : World} (alone : w.Alone) {o : Object}
    (here : Table.get? w.store.objects r.root.key = some o)
    (counted : ∀ e ∈ Child.deployments (r.children w.capabilities),
      ∃ n : Int32, w.store.readyReplicas e.1 = n.toInt)
    {look : NextLook} (ran : (r.pass settings).run World.handle w = (.ok look, w')) :
    r.Reported w.capabilities w'.store := by
  obtain ⟨τ, _, p, plans, hpass⟩ := r.exists_steps settings alive
  have hcheck : r.defaulted.validate = .ok () := by
    cases hcheck : r.defaulted.validate with
    | ok _ => rfl
    | error e =>
      rw [hpass, hcheck] at ran
      exact absurd (congrArg Prod.fst ran) nofun
  rw [hpass, hcheck] at ran
  have hface : w.store.face p.root.key = some o.face := by
    rw [plans.root]
    exact congrArg (Option.map Object.face) here
  obtain ⟨_, _, q, hq, leads⟩ :=
    (Plan.ends_pass settings alone (plans.proper w.capabilities) hface r.root).of_ok ran
  -- the report on the root leaves the deployments, which have the status they had before
  have hready : ∀ e ∈ Child.deployments (r.children w.capabilities),
      w.store.face.readyReplicas e.1 = w'.store.readyReplicas e.1 := by
    intro e he
    obtain ⟨c, _, hkey, _⟩ := Child.mem_deployments he
    have hroot : p.root.key ≠ e.1 := by
      rw [← hkey]
      exact Ne.symm (c.key_ne_root p.root)
    rw [← plans.readyReplicas_laid settings w.capabilities _ o.face he,
      ← Store.readyReplicas_face, leads.face]
    unfold Faces.readyReplicas
    rw [Faces.turn_of_ne _ hroot]
  have hverdict := plans.verdict settings w.capabilities w.store.face o.face w'.store.readyReplicas
    fun e he => by
      obtain ⟨n, hn⟩ := counted e he
      rw [← Store.readyReplicas_face] at hn
      exact ⟨hready e he, n, (hready e he).symm.trans hn⟩
  obtain ⟨cs, t, hcs, hfind⟩ := Report.find?_ready (plans.lawful _) hq
  replace hcs : r.root.kind.conditions? q.data = some cs := (plans.conditions q.data).symm.trans hcs
  obtain ⟨stored, hstored, rfl⟩ : ∃ stored,
      Table.get? w'.store.objects r.root.key = some stored ∧ stored.face = q := by
    refine Store.exists_of_face ?_
    rw [leads.face, ← plans.root, Faces.turn_self]
  refine ⟨r.defaulted.tracked_eq r.root w.capabilities, stored, cs, _, hstored, hcs, hfind, ?_, ?_⟩
  · show Truth.ofBool (p.report _ _).verdict.ready = .yes ↔ _
    rw [hverdict, ← Verdict.lagging?_eq_none_iff]
    cases Verdict.lagging? w'.store.readyReplicas
        (Child.deployments (r.children w.capabilities)) with
    | none => exact iff_of_true rfl rfl
    | some e => exact iff_of_false nofun nofun
  · intro e he
    show Truth.ofBool (p.report _ _).verdict.ready = .no ∧ (p.report _ _).verdict.message = _
    rw [hverdict, he]
    exact ⟨rfl, rfl⟩

end RootResource

/-- A SimulatorDeployment with two stages. -/
def stagedSimulator : RootResource := .simulator
  { metadata := { name := some "sim", ns := some "default", uid := some "u-2" }
    spec := { prefill := some { enabled := true, replicas := 2 }
              decode := some { enabled := true, replicas := 1 } } }

/-- A store with that root, and with its first stage from when it was to have one replica. -/
def stagedWorld : World where
  store := { objects := [
    (⟨.deployment, "default", "ms-sim-sim-prefill"⟩,
      { metadata := { name := some "ms-sim-sim-prefill", ns := some "default" }
        data := .obj [("spec", .obj [("replicas", .int 1)]),
          ("status", .obj [("readyReplicas", .int 1)])] }),
    (stagedSimulator.root.key,
      { metadata := { name := some "sim", ns := some "default", uid := some "u-2" }
        data := .obj [] })] }
  clock := "2024-05-01T00:00:00Z"

/-- What the pass over that root leaves. -/
def stagedEnd : World := ((stagedSimulator.pass {}).run World.handle stagedWorld).2

/-- The root waits for the second replica of the first stage, which was ready before. -/
theorem readiness_pass_stagedSimulator :
    (stagedSimulator.pass {}).run World.handle stagedWorld = (.ok (.after 300), stagedEnd) ∧
      stagedSimulator.Reported stagedWorld.capabilities stagedEnd.store ∧
      (Verdict.lagging? stagedEnd.store.readyReplicas
        (Child.deployments (stagedSimulator.children stagedWorld.capabilities))).map
          (Verdict.laggingText stagedEnd.store.readyReplicas)
        = some "waiting for Deployment default/ms-sim-sim-prefill: 1/2 replicas ready" := by
  have hran : (stagedSimulator.pass {}).run World.handle stagedWorld
      = (.ok (.after 300), stagedEnd) := Prod.ext (by decide +kernel) rfl
  have hcounts : ∀ e ∈ Child.deployments (stagedSimulator.children stagedWorld.capabilities),
      stagedWorld.store.readyReplicas e.1 = (0 : Int32).toInt ∨
        stagedWorld.store.readyReplicas e.1 = (1 : Int32).toInt := by decide +kernel
  have hcalm : stagedWorld.Calm := rfl
  refine ⟨hran, RootResource.readiness_pass rfl hcalm.alone rfl ?_ hran, by decide +kernel⟩
  intro e he
  rcases hcounts e he with h | h
  · exact ⟨0, h⟩
  · exact ⟨1, h⟩

end Converge
