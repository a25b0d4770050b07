/-
  Converge.Proofs.Children.Tracked — which children the readiness of a root waits for.

  A child carries a mark for it, which every builder sets on its own.  It is set on the deployments
  and on nothing else.  Names that a spec is free to give are those of services, so that deployments
  of one build are kept apart by their keys whatever the spec says.

  Main statements:
    * `RootSpec.tracked_eq` — the keys that are waited for are those of the deployments, in order.
    * `RootSpec.tracked_nodup` — none of them comes twice.
-/
import Converge.Proofs.Children.Builders
import Converge.Proofs.Children.Keys

namespace Converge

/-! ## §1. Deployments among children -/

namespace Child

/-- The key and the deployment, for a child that is a deployment. -/
def deployment? (c : Child) : Option (Key × Deployment) :=
  match c.body with
  | .deployment d => some (c.key, d)
  | _ => none

/-- The deployments among children, in order. -/
def deployments (cs : List Child) : List (Key × Deployment) := cs.filterMap deployment?

/-- Exactly a deployment is waited for. -/
def Tracks (c : Child) : Prop := c.tracked = c.deployment?.isSome

theorem key_of_deployment? {c : Child} {e : Key × Deployment} (h : c.deployment? = some e) :
    c.key = e.1 ∧ c.body = .deployment e.2 := by
  unfold deployment? at h
  split at h
  · rename_i d hbody
    obtain rfl := Option.some.inj h
    exact ⟨rfl, hbody⟩
  · exact absurd h nofun

theorem mem_deployments {cs : List Child} {e : Key × Deployment} (h : e ∈ deployments cs) :
    ∃ c ∈ cs, c.key = e.1 ∧ c.body = .deployment e.2 := by
  obtain ⟨c, hc, he⟩ := List.mem_filterMap.mp h
  exact ⟨c, hc, key_of_deployment? he⟩

theorem Tracks.of_kind {c : Child} (h : c.Tracks) (kind : c.body.kind = .deployment) :
    c.tracked = true := by
  unfold Tracks deployment? at h
  rw [h]
  cases hb : c.body with
  | deployment d => rfl
  | serviceAccount | role | roleBinding | configMap | service | gateway | httpRoute
  | referenceGrant | destinationRule =>
    rw [hb] at kind
    exact absurd kind nofun

theorem tracked_eq_of_tracks {cs : List Child} (h : ∀ c ∈ cs, c.Tracks) :
    (cs.filter (·.tracked)).map key = (deployments cs).map Prod.fst := by
  induction cs with
  | nil => rfl
  | cons c cs ih =>
    obtain ⟨hc, hrest⟩ := List.forall_mem_cons.mp h
    unfold Tracks at hc
    unfold deployments at ih ⊢
    cases he : c.deployment? with
    | none =>
      rw [he] at hc
      rw [List.filterMap_cons_none he, List.filter_cons_of_neg (by simp [hc]), ih hrest]
    | some e =>
      rw [he] at hc
      rw [List.filterMap_cons_some he, List.filter_cons_of_pos hc, List.map_cons, List.map_cons,
        (key_of_deployment? he).1, ih hrest]

/-- A child that a filter drops takes no part. -/
theorem nodup_filter_insert {before after : List Child} {c : Child} {p : Child → Bool}
    (once : ((before ++ after).map key).Nodup) (dropped : p c = false) :
    (((before ++ c :: after).filter p).map key).Nodup := by
  have hfilter : (before ++ c :: after).filter p = (before ++ after).filter p := by
    rw [List.filter_append, List.filter_cons_of_neg (by simp [dropped]), ← List.filter_append]
  rw [hfilter]
  exact once.sublist (List.filter_sublist.map key)

end Child

/-- Where no two children that are waited for have one key, a deployment finds what was there
    before, whatever the other children are. -/
theorem Faces.lay_of_tracks (F : Faces) {cs : List Child} (tracks : ∀ c ∈ cs, c.Tracks)
    (once : ((cs.filter (·.tracked)).map Child.key).Nodup) {c : Child} (hc : c ∈ cs)
    (kind : c.body.kind = .deployment) : F.lay cs c.key = some (c.applied (F c.key)) := by
  have hkept : ∀ b ∈ cs, b.key = c.key → b.tracked = true := by
    intro b hb key
    exact (tracks b hb).of_kind ((Child.kind_of_key key).trans kind)
  rw [lay_filter hkept (rfl : F c.key = F c.key)]
  exact lay_of_mem F once (List.mem_filter.mpr ⟨hc, hkept c hc rfl⟩)

theorem PickerPlan.children_tracks (p : PickerPlan) (root : Root) :
    ∀ c ∈ p.children root, c.Tracks := forall_children rfl rfl rfl rfl rfl rfl

/-! ## §2. Children of a SchedulerInstall -/

namespace Install

theorem Spec.children_tracks (root : Root) (caps : Capabilities) (s : Spec) :
    ∀ c ∈ s.children root caps, c.Tracks := by
  refine Spec.forall_children ?picker ?gateway ?proxy ?grant ?route ?policy
  case picker => exact fun _ => PickerPlan.children_tracks _ root
  case gateway => exact fun _ _ => rfl
  case proxy => exact rfl
  case grant => exact fun _ => rfl
  case route =>
    intro _ c hc
    obtain ⟨r, _, rfl⟩ := Option.map_eq_some_iff.mp hc
    rfl
  case policy => exact fun _ _ => rfl

theorem Spec.tracked_nodup (root : Root) (caps : Capabilities) (s : Spec) :
    (((s.children root caps).filter (·.tracked)).map Child.key).Nodup := by
  rw [s.children_eq]
  exact Child.nodup_filter_insert (s.others_nodup root caps) rfl

end Install

/-! ## §3. Children of a SimulatorDeployment -/

namespace Simulator

theorem GatewayPlan.children_tracks (p : GatewayPlan) (root : Root) (backend : Endpoint) :
    ∀ c ∈ p.children root backend, c.Tracks := forall_children (fun _ => rfl) rfl rfl

theorem Workload.children_tracks (w : Workload) (root : Root) :
    ∀ c ∈ w.children root, c.Tracks := forall_children rfl rfl

theorem Spec.children_tracks (root : Root) (caps : Capabilities) (s : Spec) :
    ∀ c ∈ s.children root caps, c.Tracks := by
  refine Spec.forall_children ?picker ?gateways ?workloads ?policy
  case picker => exact fun _ => PickerPlan.children_tracks _ root
  case gateways => exact fun p _ => p.children_tracks root _
  case workloads => exact fun w _ => w.children_tracks root
  case policy => exact fun _ _ => rfl

theorem Spec.tracked_nodup (root : Root) (caps : Capabilities) (s : Spec) :
    (((s.children root caps).filter (·.tracked)).map Child.key).Nodup := by
  cases staged : s.staged with
  | true =>
    have once := Spec.nodup_of_staged root caps staged
    exact once.sublist (List.filter_sublist.map Child.key)
  | false =>
    rw [Spec.children_of_unstaged root caps staged]
    exact Child.nodup_filter_insert (s.others_nodup root caps) rfl

end Simulator

/-! ## §4. Children of either -/

namespace RootSpec

theorem children_tracks (root : Root) (caps : Capabilities) (s : RootSpec) :
    ∀ c ∈ s.children root caps, c.Tracks := by
  cases s with
  | install s => exact s.children_tracks root caps
  | simulator s => exact s.children_tracks root caps

/-- The keys that are waited for are those of the deployments, in the order of the build. -/
theorem tracked_eq (root : Root) (caps : Capabilities) (s : RootSpec) :
    ((s.children root caps).filter (·.tracked)).map Child.key
      = (Child.deployments (s.children root caps)).map Prod.fst :=
  Child.tracked_eq_of_tracks (s.children_tracks root caps)

/-- No two deployments of a build have one key, also where services meet. -/
theorem tracked_nodup (root : Root) (caps : Capabilities) (s : RootSpec) :
    (((s.children root caps).filter (·.tracked)).map Child.key).Nodup := by
  cases s with
  | install s => exact s.tracked_nodup root caps
  | simulator s => exact s.tracked_nodup root caps

end RootSpec

end Converge
