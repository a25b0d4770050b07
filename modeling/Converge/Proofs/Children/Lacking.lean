/-
  Converge.Proofs.Children.Lacking — what is left of a build on a cluster that lacks kinds.

  A cluster may lack some of the optional kinds.  Children of these kinds cannot be had, and a grant
  is of no use without the routes it is given to.  The builders ask for each child by itself whether
  it can be had, before they make it.  What they make is what they would make on a cluster that has
  everything, without the children that cannot be had: no other child changes, moves or goes.

  Main statement: `RootSpec.children_without` — a build on a cluster that lacks kinds is a part of
  the whole build, in its order.
-/
import Converge.Proofs.Children.Served

namespace Converge

/-! ## §1. Children that cannot be had -/

namespace Child

/-- The child cannot be had where the kinds are missing: it is of one of them, or it is a grant and
    routes are among them. -/
def Lost (missing : List Kind) (c : Child) : Prop :=
  c.body.kind ∈ missing ∨ c.body.kind = .referenceGrant ∧ Kind.httpRoute ∈ missing

instance (missing : List Kind) (c : Child) : Decidable (c.Lost missing) :=
  inferInstanceAs (Decidable (_ ∨ _))

/-- The children that can be had, in their order. -/
def remaining (missing : List Kind) (cs : List Child) : List Child :=
  cs.filter fun c => ¬ c.Lost missing

variable {missing : List Kind} {c : Child}

theorem Plain.not_lost (optional : ∀ k ∈ missing, k.isOptional = true) (plain : c.Plain) :
    ¬ c.Lost missing := by
  unfold Plain at plain
  rintro (lost | ⟨grant, _⟩)
  · rw [optional _ lost] at plain
    exact Bool.noConfusion plain
  · rw [grant] at plain
    exact absurd plain (by decide)

theorem remaining_append (cs ds : List Child) :
    remaining missing (cs ++ ds) = remaining missing cs ++ remaining missing ds :=
  List.filter_append _ _

theorem remaining_plain (optional : ∀ k ∈ missing, k.isOptional = true) {cs : List Child}
    (plain : ∀ c ∈ cs, c.Plain) : remaining missing cs = cs :=
  List.filter_eq_self.mpr fun c hc => decide_eq_true ((plain c hc).not_lost optional)

/-- One child remains exactly if the gate in front of it is open. -/
theorem remaining_single {gate : Bool} (h : gate = true ↔ ¬ c.Lost missing) :
    remaining missing [c] = if gate then [c] else [] := by
  unfold remaining
  by_cases lost : c.Lost missing
  · have closed : gate = false := Bool.eq_false_iff.mpr fun g => h.mp g lost
    rw [List.filter_cons_of_neg (by simpa using lost), closed, if_neg Bool.false_ne_true,
      List.filter_nil]
  · rw [List.filter_cons_of_pos (by simpa using lost), h.mpr lost, if_pos rfl, List.filter_nil]

end Child

variable {caps : Capabilities}

theorem Capabilities.full_supports (k : Kind) : full.supports k = true := rfl

namespace Child

/-- A child that is no grant stands behind a gate of its own. -/
theorem remaining_gated {c : Child} {k : Kind} (kind : c.body.kind = k)
    (other : k ≠ .referenceGrant) : remaining caps.missing [c] = gated caps k c := by
  refine remaining_single ?_
  rw [Capabilities.supports_eq_true_iff, ← kind]
  exact not_congr (or_iff_left fun h => other (kind ▸ h.1)).symm

/-- A grant stands behind a joint gate. -/
theorem remaining_grant {c : Child} (kind : c.body.kind = .referenceGrant) :
    remaining caps.missing [c]
      = if caps.supports .httpRoute && caps.supports .referenceGrant then [c] else [] := by
  refine remaining_single ?_
  unfold Lost
  rw [Bool.and_eq_true_iff, Capabilities.supports_eq_true_iff, Capabilities.supports_eq_true_iff,
    kind, not_or, and_comm, eq_self, true_and]

/-- An optional block of which every child stands behind the gate of its own kind. -/
theorem ofBlock_gated {α : Type} {block : Option α} {enabled : α → Bool} {make : α → Child}
    {k : Kind} (kind : ∀ b, (make b).body.kind = k) (other : k ≠ .referenceGrant) :
    ofBlock block enabled (fun b => gated caps k (make b))
      = remaining caps.missing (ofBlock block enabled fun b => gated .full k (make b)) := by
  unfold ofBlock
  cases block.filter enabled with
  | none => rfl
  | some b => exact (remaining_gated (kind b) other).symm

/-- The traffic policy of a service, for a root of either kind. -/
theorem policies_without (root : Root) (ns service : String) (balancing : Option Balancing) :
    policies root caps ns service balancing
      = remaining caps.missing (policies root .full ns service balancing) :=
  ofBlock_gated (fun _ => rfl) nofun

end Child

section Lacking

variable (optional : ∀ k ∈ caps.missing, k.isOptional = true)

/-! ## §2. Children of a SchedulerInstall -/

namespace Install

theorem Spec.routingChildren_without (root : Root) (s : Spec) :
    s.routingChildren root caps = Child.remaining caps.missing (s.routingChildren root .full) := by
  unfold routingChildren
  by_cases on : s.routing.any (·.enabled) = true
  · rw [if_pos on, if_pos on, Child.remaining_append]
    simp only [Capabilities.full_supports, Bool.and_self, if_true]
    refine congr (congrArg _ ?grant) ?route
    case grant => exact (Child.remaining_grant rfl).symm
    case route =>
      unfold routeChild?
      cases s.routing with
      | none => exact ite_self []
      | some r => exact (Child.remaining_gated (k := .httpRoute) rfl nofun).symm
  · rw [if_neg on, if_neg on]
    rfl

include optional

theorem Spec.children_remaining (root : Root) (s : Spec) :
    s.children root caps = Child.remaining caps.missing (s.children root .full) := by
  have hpicker : ∀ c ∈ s.pickerChildren root, c.Plain := by
    rw [s.pickerChildren_eq]
    exact Child.forall_ofBlock fun _ _ _ => PickerPlan.children_plain _ root
  have hgateway : s.gatewayChildren root caps
      = Child.remaining caps.missing (s.gatewayChildren root .full) := by
    rw [s.gatewayChildren_eq, s.gatewayChildren_eq]
    exact Child.ofBlock_gated (fun _ => rfl) nofun
  have hproxy : Child.remaining caps.missing [s.proxyChild root] = [s.proxyChild root] :=
    Child.remaining_plain optional (List.forall_mem_singleton.mpr rfl)
  unfold children
  simp only [Child.remaining_append]
  rw [Child.remaining_plain optional hpicker, hproxy, ← hgateway, ← s.routingChildren_without root,
    s.policyChildren_eq, s.policyChildren_eq, ← Child.policies_without]

end Install

/-! ## §3. Children of a SimulatorDeployment -/

namespace Simulator

include optional

theorem Spec.children_remaining (root : Root) (s : Spec) :
    s.children root caps = Child.remaining caps.missing (s.children root .full) := by
  have hplain : ∀ c ∈ s.pickerChildren root ++ s.gatewayChildren root ++ s.workloadChildren root,
      c.Plain := by
    rw [s.pickerChildren_eq]
    unfold gatewayChildren workloadChildren
    simp only [List.forall_mem_append, List.forall_mem_flatMap]
    refine ⟨⟨?picker, fun p _ => p.children_plain root _⟩, fun w _ => w.children_plain root⟩
    case picker => exact Child.forall_ofBlock fun _ _ _ => PickerPlan.children_plain _ root
  unfold children
  rw [Child.remaining_append, Child.remaining_plain optional hplain, s.policyChildren_eq,
    s.policyChildren_eq, ← Child.policies_without]

end Simulator

/-! ## §4. Children of either -/

include optional

/-- A cluster lacks some of the optional kinds.  The build of any root and any spec of either kind
    is then the build on a cluster that lacks nothing, without exactly these children: those of a
    missing kind, and the grant if routes are missing.  All others are the same, in the same
    order. -/
theorem RootSpec.children_without (root : Root) (s : RootSpec) :
    s.children root caps = (s.children root .full).filter fun c =>
      ¬ (c.body.kind ∈ caps.missing ∨
        c.body.kind = .referenceGrant ∧ Kind.httpRoute ∈ caps.missing) := by
  cases s with
  | install s => exact s.children_remaining optional root
  | simulator s => exact s.children_remaining optional root

end Lacking

/-- A SchedulerInstall with a picker and all that a cluster may lack. -/
def gatedInstall : RootSpec := (RootSpec.install
  { simulatorNamespace := "sims"
    picker := some { enabled := true }
    gateway := some { enabled := true }
    routing := some { enabled := true }
    balancing := some { enabled := true } }).withDefaults "pool" "default"

/-- Its root. -/
def gatedRoot : Root := ⟨.schedulerInstall, "pool", "default", "u-1"⟩

/-- Where routes and gateways are missing, the grant goes with the routes although grants could be
    had; the proxy service and the traffic policy stay. -/
theorem children_without_gatedInstall :
    let caps := Capabilities.without [.httpRoute, .gateway]
    (∀ k ∈ caps.missing, k.isOptional = true) ∧
      gatedInstall.children gatedRoot caps = ((gatedInstall.children gatedRoot .full).filter fun c =>
        ¬ (c.body.kind ∈ caps.missing ∨
          c.body.kind = .referenceGrant ∧ Kind.httpRoute ∈ caps.missing)) ∧
      (gatedInstall.children gatedRoot .full).map (·.body.kind) =
        [.serviceAccount, .role, .roleBinding, .configMap, .deployment, .service, .gateway,
          .service, .referenceGrant, .httpRoute, .destinationRule] ∧
      (gatedInstall.children gatedRoot caps).map (·.body.kind) =
        [.serviceAccount, .role, .roleBinding, .configMap, .deployment, .service, .service,
          .destinationRule] := by
  have hoptional : ∀ k ∈ (Capabilities.without [.httpRoute, .gateway]).missing,
      k.isOptional = true := by decide
  exact ⟨hoptional, RootSpec.children_without hoptional gatedRoot gatedInstall, by decide,
    by decide⟩

end Converge
