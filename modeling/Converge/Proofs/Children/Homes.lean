/-
  Converge.Proofs.Children.Homes — the namespaces in which a root has children.

  The children of a SchedulerInstall are in the two namespaces of its spec.  The scheduler's falls
  back to that of the root and the simulators' may not be blank, so that a child outside the root's
  namespace is in one of the linked namespaces.

  A SimulatorDeployment has all its children in its own namespace.

  Main statements:
    * `Install.Spec.children_home` — every child is in one of the two namespaces.
    * `Install.Spec.home_linked` — with defaults, and accepted, in the root's or a linked one.
    * `Simulator.Spec.children_home` — every child is in the namespace of the root.
-/
import Converge.Pass.Reconcile
import Converge.Proofs.Children.Builders

namespace Converge

theorem Body.kind_mem_children (b : Body) : b.kind ∈ Kind.children := by
  cases b <;> simp [kind, Kind.children]

theorem PickerPlan.children_home (p : PickerPlan) (root : Root) :
    ∀ c ∈ p.children root, c.ns = p.ns ∨ c.ns = p.accessNamespace :=
  forall_children (.inl rfl) (.inr rfl) (.inr rfl) (.inl rfl) (.inl rfl) (.inl rfl)

namespace Install

/-- The child is in one of the two namespaces of the spec. -/
def Spec.Houses (s : Spec) (c : Child) : Prop :=
  c.ns = s.schedulerNamespace ∨ c.ns = s.simulatorNamespace

/-- Every child of a SchedulerInstall is in one of the two namespaces of its spec. -/
theorem Spec.children_home (root : Root) (caps : Capabilities) (s : Spec) :
    ∀ c ∈ s.children root caps, s.Houses c := by
  refine Spec.forall_children ?picker ?gateway ?proxy ?grant ?route ?policy
  case picker => exact fun _ => PickerPlan.children_home _ root
  case gateway => exact fun _ _ => .inl rfl
  case proxy => exact .inr rfl
  case grant => exact fun _ => .inr rfl
  case route =>
    intro _ c hc
    obtain ⟨r, _, rfl⟩ := Option.map_eq_some_iff.mp hc
    exact .inl rfl
  case policy => exact fun _ _ => .inr rfl

/-- An accepted spec names the simulators' namespace. -/
theorem Spec.simulatorNamespace_ne {s : Spec} (accepted : s.validate = .ok ()) :
    s.simulatorNamespace ≠ "" := by
  intro hempty
  have hblank : s.validate = .error (.missing "spec.simulatorNamespace") := by
    unfold validate
    rw [hempty]
    rfl
  rw [hblank] at accepted
  exact absurd accepted nofun

/-- A child of an accepted spec with its defaults is in the root's namespace or a linked one. -/
theorem Spec.home_linked {root : Root} {s : Spec}
    (accepted : (s.withDefaults root.name root.ns).validate = .ok ()) (caps : Capabilities)
    {c : Child} (hc : c ∈ (s.withDefaults root.name root.ns).children root caps) :
    c.ns = root.ns ∨ c.ns ∈ (s.withDefaults root.name root.ns).linkedNamespaces root := by
  by_cases hown : c.ns = root.ns
  · exact .inl hown
  refine .inr ((Roster.mem_ofList _ _).mpr (List.mem_filter.mpr ?_))
  have hne := simulatorNamespace_ne accepted
  rcases children_home root caps _ c hc with h | h
  · -- the scheduler's namespace is not empty, or it would be that of the root
    have hnamed : c.ns ≠ "" := by
      intro hempty
      have horText : c.ns = orText s.schedulerNamespace root.ns := h
      unfold orText at horText
      split at horText
      · exact hown horText
      · rename_i hs
        exact hs (horText.symm.trans hempty)
    exact ⟨by rw [h]; exact List.mem_cons_self, by simp [hnamed, hown]⟩
  · refine ⟨by rw [h]; exact List.mem_cons_of_mem _ List.mem_cons_self, ?_⟩
    have hnamed : c.ns ≠ "" := by
      rw [h]
      exact hne
    simp [hnamed, hown]

end Install

namespace Simulator

theorem GatewayPlan.children_home (p : GatewayPlan) (root : Root) (backend : Endpoint) :
    ∀ c ∈ p.children root backend, c.ns = root.ns := forall_children (fun _ => rfl) rfl rfl

theorem Workload.children_home (w : Workload) (root : Root) :
    ∀ c ∈ w.children root, c.ns = root.ns := forall_children rfl rfl

/-- Every child of a SimulatorDeployment is in the namespace of its root. -/
theorem Spec.children_home (root : Root) (caps : Capabilities) (s : Spec) :
    ∀ c ∈ s.children root caps, c.ns = root.ns := by
  refine Spec.forall_children ?picker ?gateways ?workloads ?policy
  case picker =>
    intro p c hc
    exact (PickerPlan.children_home _ root c hc).elim id id
  case gateways => exact fun p _ => p.children_home root _
  case workloads => exact fun w _ => w.children_home root
  case policy => exact fun _ _ => rfl

end Simulator

end Converge
