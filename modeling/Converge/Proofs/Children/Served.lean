/-
  Converge.Proofs.Children.Served — children are of kinds the cluster serves.

  A gate asks about optional kinds alone, so whatever it finds missing is optional.  Builders
  leave out the optional children that are missing; the others are of kinds every cluster serves.

  Main statements:
    * `Gate.resolve_optional` — a gate finds nothing missing but optional kinds.
    * `RootSpec.children_served` — no child of any spec is of a kind that is missing.
-/
import Converge.Proofs.Children.Builders
import Converge.Scenario.World

namespace Converge

/-! ## §1. What a gate finds -/

theorem Gate.missingOf_subset {σ : Type} (g : Gate) (ask : Kind → σ → Bool × σ) (now : Nat)
    (ks : List Kind) (s : Answers × σ) : (g.missingOf ask now ks s).1 ⊆ ks := by
  induction ks generalizing s with
  | nil => exact List.nil_subset _
  | cons k ks ih =>
    have hrest := ih (g.supported ask now k s).2
    unfold missingOf
    dsimp only
    split
    · exact List.subset_cons_of_subset k hrest
    · exact List.cons_subset_cons k hrest

/-- Whatever its discovery answers, a gate finds nothing missing but optional kinds. -/
theorem Gate.resolve_optional {σ : Type} (g : Gate) (ask : Kind → σ → Bool × σ) (now : Nat)
    (s : Answers × σ) : ∀ k ∈ (g.resolve ask now s).1.missing, k.isOptional = true := by
  intro k hk
  have hmem : k ∈ (g.missingOf ask now Kind.optionals s).1 := (Roster.mem_ofList _ k).mp hk
  exact List.contains_iff_mem.mpr (g.missingOf_subset ask now _ s hmem)

theorem World.capabilities_optional (w : World) :
    ∀ k ∈ w.capabilities.missing, k.isOptional = true :=
  Gate.resolve_optional _ _ _ _

/-! ## §2. Kinds that are served -/

namespace Capabilities

theorem supports_eq_true_iff (caps : Capabilities) (k : Kind) :
    caps.supports k = true ↔ k ∉ caps.missing := by
  simp [supports]

/-- A kind that no cluster may lack is served. -/
theorem supports_plain {caps : Capabilities} (optional : ∀ k ∈ caps.missing, k.isOptional = true)
    {k : Kind} (plain : k.isOptional = false) : caps.supports k = true := by
  rw [supports_eq_true_iff]
  intro missing
  rw [optional k missing] at plain
  exact Bool.noConfusion plain

end Capabilities

/-- The child is of a kind that is served. -/
def Child.Served (caps : Capabilities) (c : Child) : Prop := caps.supports c.body.kind = true

/-- The child is of a kind that no cluster may lack. -/
def Child.Plain (c : Child) : Prop := c.body.kind.isOptional = false

theorem PickerPlan.children_plain (p : PickerPlan) (root : Root) :
    ∀ c ∈ p.children root, c.Plain := forall_children rfl rfl rfl rfl rfl rfl

theorem Simulator.GatewayPlan.children_plain (p : GatewayPlan) (root : Root) (backend : Endpoint) :
    ∀ c ∈ p.children root backend, c.Plain := forall_children (fun _ => rfl) rfl rfl

theorem Simulator.Workload.children_plain (w : Workload) (root : Root) :
    ∀ c ∈ w.children root, c.Plain := forall_children rfl rfl

section Served

variable {caps : Capabilities} (optional : ∀ k ∈ caps.missing, k.isOptional = true)

include optional

theorem Child.Plain.served {c : Child} (plain : c.Plain) : c.Served caps :=
  Capabilities.supports_plain optional plain

/-! ## §3. Children of a SchedulerInstall -/

namespace Install

theorem Spec.children_served (root : Root) (s : Spec) :
    ∀ c ∈ s.children root caps, c.Served caps := by
  refine Spec.forall_children ?picker ?gateway ?proxy ?grant ?route ?policy
  case picker => exact fun _ c hc => (PickerPlan.children_plain _ root c hc).served optional
  case gateway => exact fun served _ => served
  case proxy => exact Child.Plain.served optional rfl
  case grant => exact fun served => served
  case route =>
    intro served c hc
    obtain ⟨r, _, rfl⟩ := Option.map_eq_some_iff.mp hc
    exact served
  case policy => exact fun served _ => served

end Install

/-! ## §4. Children of a SimulatorDeployment -/

namespace Simulator

theorem Spec.children_served (root : Root) (s : Spec) :
    ∀ c ∈ s.children root caps, c.Served caps := by
  refine Spec.forall_children ?picker ?gateways ?workloads ?policy
  case picker => exact fun _ c hc => (PickerPlan.children_plain _ root c hc).served optional
  case gateways => exact fun p _ c hc => (p.children_plain root _ c hc).served optional
  case workloads => exact fun w _ c hc => (w.children_plain root c hc).served optional
  case policy => exact fun served _ => served

end Simulator

/-- Where only optional kinds are missing, no child of a spec of either kind is of a kind that is
    missing. -/
theorem RootSpec.children_served (root : Root) (s : RootSpec) :
    ∀ c ∈ s.children root caps, c.Served caps := by
  cases s with
  | install s => exact s.children_served optional root
  | simulator s => exact s.children_served optional root

end Served

end Converge
