/-
  Converge.Proofs.Children.Builders — what holds of all children of a spec.

  Children are built block by block.  Some blocks are optional and are built only if they are there
  and enabled, and a child of an optional kind is left out where that kind is missing.  What such a
  block gives is shown here once for all of them.  What is to hold of all children is then shown
  once for each builder, and not again for each property.

  Main statements:
    * `Child.ofBlock_cases`, `Child.mem_ofBlock`, `Child.ofBlock_on` — what an optional block gives.
    * `PickerPlan.forall_children`, `Simulator.GatewayPlan.forall_children` and
      `Simulator.Workload.forall_children` — what holds of each child of one block holds of all.
    * `Install.Spec.forall_children_of_mem` and `Simulator.Spec.forall_children_of_mem`, for what
      holds because of what the blocks of the spec are, and `Install.Spec.forall_children` and
      `Simulator.Spec.forall_children`, for what holds whatever they are.
-/
import Converge.RootSpec

namespace Converge

variable {P : Child → Prop} {root : Root} {caps : Capabilities}

/-! ## §1. Optional blocks -/

namespace Child

/-- The child of an optional kind, where the kind is served. -/
def gated (caps : Capabilities) (k : Kind) (c : Child) : List Child :=
  if caps.supports k then [c] else []

theorem forall_gated {k : Kind} {c : Child} (h : caps.supports k = true → P c) :
    ∀ d ∈ gated caps k c, P d := by
  unfold gated
  split
  · rename_i served
    exact List.forall_mem_singleton.mpr (h served)
  · exact List.forall_mem_nil P

section Block

variable {α : Type} {block : Option α} {enabled : α → Bool} {build : α → List Child}

/-- The children of an optional block: what is built of it if it is there and enabled. -/
def ofBlock (block : Option α) (enabled : α → Bool) (build : α → List Child) : List Child :=
  match block.filter enabled with
  | some b => build b
  | none => []

/-- A block gives no children, or is enabled and gives its own. -/
theorem ofBlock_cases {motive : List Child → Prop} (off : motive [])
    (on : ∀ b, block = some b → enabled b = true → motive (build b)) :
    motive (ofBlock block enabled build) := by
  unfold ofBlock
  split
  · rename_i b hb
    obtain ⟨hblock, enabled⟩ := Option.filter_eq_some_iff.mp hb
    exact on b hblock enabled
  · exact off

theorem ofBlock_on {b : α} (hb : block = some b) (on : enabled b = true) :
    ofBlock block enabled build = build b := by
  unfold ofBlock
  rw [hb, Option.filter_some_pos on]

/-- A block that has children is enabled. -/
theorem mem_ofBlock {c : Child} :
    c ∈ ofBlock block enabled build ↔ ∃ b, block = some b ∧ enabled b = true ∧ c ∈ build b := by
  constructor
  · exact ofBlock_cases (motive := fun cs => c ∈ cs → _) nofun fun b hb on hc => ⟨b, hb, on, hc⟩
  · rintro ⟨b, hb, on, hc⟩
    rw [ofBlock_on hb on]
    exact hc

theorem forall_ofBlock (h : ∀ b ∈ block, enabled b = true → ∀ c ∈ build b, P c) :
    ∀ c ∈ ofBlock block enabled build, P c :=
  ofBlock_cases (motive := fun cs => ∀ c ∈ cs, P c) (List.forall_mem_nil P) h

end Block

/-- The traffic policy of a service, if it is asked for and can be had. -/
def policies (root : Root) (caps : Capabilities) (ns service : String)
    (balancing : Option Balancing) : List Child :=
  ofBlock balancing (·.enabled) fun b =>
    gated caps .destinationRule (trafficPolicy root ns service b)

variable {ns service : String} {balancing : Option Balancing}

/-- There is no policy, or one of an enabled block. -/
theorem policies_cases {motive : List Child → Prop} (off : motive [])
    (on : ∀ b, balancing = some b → b.enabled = true →
      motive [trafficPolicy root ns service b]) :
    motive (policies root caps ns service balancing) := by
  refine ofBlock_cases off fun b hb enabled => ?_
  unfold gated
  split
  · exact on b hb enabled
  · exact off

theorem forall_policies
    (h : caps.supports .destinationRule = true →
      ∀ b ∈ balancing, b.enabled = true → P (trafficPolicy root ns service b)) :
    ∀ c ∈ policies root caps ns service balancing, P c :=
  forall_ofBlock fun b hb on => forall_gated fun served => h served b hb on

end Child

theorem Install.Spec.pickerChildren_eq (root : Root) (s : Install.Spec) :
    s.pickerChildren root
      = Child.ofBlock s.picker (·.enabled) fun p => (p.plan root s).children root := by
  unfold pickerChildren Child.ofBlock
  cases s.picker.filter (·.enabled) <;> rfl

theorem Install.Spec.gatewayChildren_eq (root : Root) (caps : Capabilities) (s : Install.Spec) :
    s.gatewayChildren root caps = Child.ofBlock s.gateway (·.enabled) fun g =>
      Child.gated caps .gateway (g.child root s.schedulerNamespace) := by
  unfold gatewayChildren Child.ofBlock
  cases s.gateway.filter (·.enabled) <;> rfl

theorem Install.Spec.policyChildren_eq (root : Root) (caps : Capabilities) (s : Install.Spec) :
    s.policyChildren root caps
      = Child.policies root caps s.simulatorNamespace s.proxy.name s.balancing := by
  unfold policyChildren Child.policies Child.ofBlock
  cases s.balancing.filter (·.enabled) <;> rfl

theorem Simulator.Spec.pickerChildren_eq (root : Root) (s : Simulator.Spec) :
    s.pickerChildren root
      = Child.ofBlock s.picker (·.enabled) fun p => (p.plan root).children root := by
  unfold pickerChildren Child.ofBlock
  cases s.picker.filter (·.enabled) <;> rfl

theorem Simulator.Spec.policyChildren_eq (root : Root) (caps : Capabilities)
    (s : Simulator.Spec) :
    s.policyChildren root caps
      = Child.policies root caps root.ns (s.serving root).service s.balancing := by
  unfold policyChildren Child.policies Child.ofBlock
  cases s.balancing.filter (·.enabled) <;> rfl

/-! ## §2. The children of one block -/

/-- The service of a picker. -/
def PickerPlan.serviceChild (p : PickerPlan) (root : Root) : Child :=
  Child.make root p.ns p.name p.labels
    (.service ⟨"ClusterIP", p.labels, [⟨"grpc", p.servicePort, grpcPort⟩]⟩)

/-- What holds of each child of a picker holds of all of them. -/
theorem PickerPlan.forall_children {p : PickerPlan}
    (account : P (Child.make root p.ns p.name p.labels .serviceAccount))
    (role : P (Child.make root p.accessNamespace p.name p.labels (.role ⟨accessRules⟩)))
    (binding : P (Child.make root p.accessNamespace p.name p.labels
      (.roleBinding ⟨p.name, p.name, p.ns⟩)))
    (config : P (Child.make root p.ns p.configName p.labels (.configMap [(p.configKey, pipeline)])))
    (workload : P { Child.make root p.ns p.name p.labels (.deployment p.deployment) with
      tracked := true })
    (service : P (p.serviceChild root)) : ∀ c ∈ p.children root, P c := by
  unfold children
  simp only [List.forall_mem_cons]
  exact ⟨account, role, binding, config, workload, service, List.forall_mem_nil P⟩

namespace Simulator

/-- The service of a gateway. -/
def GatewayPlan.serviceChild (p : GatewayPlan) (root : Root) : Child :=
  Child.make root root.ns p.name (p.labels root)
    (.service ⟨"ClusterIP", p.labels root, [⟨"http", p.config.port, p.targetPort⟩]⟩)

/-- What holds of each child of a gateway holds of all of them; only a standard gateway has a
    configuration. -/
theorem GatewayPlan.forall_children {p : GatewayPlan} {backend : Endpoint}
    (config : p.flavor = .standard → P (Child.make root root.ns p.name (p.labels root)
      (.configMap [(envoyConfigKey, envoyConfig backend)])))
    (workload : P { Child.make root root.ns p.name (p.labels root)
      (.deployment (p.deployment root)) with tracked := true })
    (service : P (p.serviceChild root)) : ∀ c ∈ p.children root backend, P c := by
  unfold children
  simp only [List.forall_mem_append, List.forall_mem_cons]
  refine ⟨?config, workload, service, List.forall_mem_nil P⟩
  case config =>
    split
    · rename_i hflavor
      exact List.forall_mem_singleton.mpr (config hflavor)
    · exact List.forall_mem_nil P

/-- The service of a workload. -/
def Workload.serviceChild (w : Workload) (root : Root) : Child :=
  Child.make root root.ns w.service (w.labels root)
    (.service ⟨w.serviceType, w.labels root, [⟨"http", w.port, w.port⟩]⟩)

/-- The deployment of a workload. -/
def Workload.deploymentChild (w : Workload) (root : Root) : Child :=
  { Child.make root root.ns w.deployment (w.labels root) (.deployment
      { replicas := w.replicas
        selector := w.labels root
        podLabels := w.labels root
        containers := [w.container] }) with tracked := true }

theorem Workload.children_eq (w : Workload) (root : Root) :
    w.children root = [w.deploymentChild root, w.serviceChild root] := rfl

/-- What holds of the two children of a workload holds of all of them. -/
theorem Workload.forall_children {w : Workload} (workload : P (w.deploymentChild root))
    (service : P (w.serviceChild root)) : ∀ c ∈ w.children root, P c := by
  rw [w.children_eq]
  simp only [List.forall_mem_cons]
  exact ⟨workload, service, List.forall_mem_nil P⟩

end Simulator

/-! ## §3. The children of a spec -/

/-- What holds of the children of each block that a SchedulerInstall has holds of all its
    children. -/
theorem Install.Spec.forall_children_of_mem {s : Install.Spec}
    (picker : ∀ p ∈ s.picker, ∀ c ∈ (p.plan root s).children root, P c)
    (gateway : caps.supports .gateway = true →
      ∀ g ∈ s.gateway, P (g.child root s.schedulerNamespace))
    (proxy : P (s.proxyChild root))
    (grant : caps.supports .referenceGrant = true → P (s.grantChild root))
    (route : caps.supports .httpRoute = true → ∀ c, s.routeChild? root = some c → P c)
    (policy : caps.supports .destinationRule = true →
      ∀ b ∈ s.balancing, b.enabled = true →
        P (Child.trafficPolicy root s.simulatorNamespace s.proxy.name b)) :
    ∀ c ∈ s.children root caps, P c := by
  have hrouting : ∀ c ∈ s.routingChildren root caps, P c := by
    unfold routingChildren
    split
    · refine List.forall_mem_append.mpr ⟨?grant, ?route⟩
      case grant =>
        split
        · rename_i served
          exact List.forall_mem_singleton.mpr (grant (Bool.and_eq_true_iff.mp served).2)
        · exact List.forall_mem_nil P
      case route =>
        split
        · rename_i served
          exact fun c hc => route served c (Option.mem_toList.mp hc)
        · exact List.forall_mem_nil P
    · exact List.forall_mem_nil P
  unfold children
  rw [pickerChildren_eq, gatewayChildren_eq, policyChildren_eq]
  simp only [List.forall_mem_append]
  refine ⟨⟨⟨⟨?picker, ?gateway⟩, List.forall_mem_singleton.mpr proxy⟩, hrouting⟩,
    Child.forall_policies policy⟩
  case picker => exact Child.forall_ofBlock fun p hp _ => picker p hp
  case gateway =>
    exact Child.forall_ofBlock fun g hg _ => Child.forall_gated fun served => gateway served g hg

/-- What holds of the children of each block of a SchedulerInstall holds of all its children. -/
theorem Install.Spec.forall_children {s : Install.Spec}
    (picker : ∀ p : Install.Picker, ∀ c ∈ (p.plan root s).children root, P c)
    (gateway : caps.supports .gateway = true →
      ∀ g : Install.Gateway, P (g.child root s.schedulerNamespace))
    (proxy : P (s.proxyChild root))
    (grant : caps.supports .referenceGrant = true → P (s.grantChild root))
    (route : caps.supports .httpRoute = true → ∀ c, s.routeChild? root = some c → P c)
    (policy : caps.supports .destinationRule = true →
      ∀ b, P (Child.trafficPolicy root s.simulatorNamespace s.proxy.name b)) :
    ∀ c ∈ s.children root caps, P c :=
  forall_children_of_mem (fun p _ => picker p) (fun served g _ => gateway served g) proxy grant
    route (fun served b _ _ => policy served b)

/-- What holds of the children of each block that a SimulatorDeployment has holds of all its
    children. -/
theorem Simulator.Spec.forall_children_of_mem {s : Simulator.Spec}
    (picker : ∀ p ∈ s.picker, ∀ c ∈ (p.plan root).children root, P c)
    (gateways : ∀ p ∈ s.gatewayPlans root, ∀ c ∈ p.children root (s.serving root), P c)
    (workloads : ∀ w ∈ s.workloads root, ∀ c ∈ w.children root, P c)
    (policy : caps.supports .destinationRule = true →
      ∀ b ∈ s.balancing, b.enabled = true →
        P (Child.trafficPolicy root root.ns (s.serving root).service b)) :
    ∀ c ∈ s.children root caps, P c := by
  unfold children gatewayChildren workloadChildren
  rw [pickerChildren_eq, policyChildren_eq]
  simp only [List.forall_mem_append, List.forall_mem_flatMap]
  refine ⟨⟨⟨?picker, gateways⟩, workloads⟩, Child.forall_policies policy⟩
  case picker => exact Child.forall_ofBlock fun p hp _ => picker p hp

/-- What holds of the children of each block of a SimulatorDeployment holds of all its children. -/
theorem Simulator.Spec.forall_children {s : Simulator.Spec}
    (picker : ∀ p : Simulator.Picker, ∀ c ∈ (p.plan root).children root, P c)
    (gateways : ∀ p ∈ s.gatewayPlans root, ∀ c ∈ p.children root (s.serving root), P c)
    (workloads : ∀ w ∈ s.workloads root, ∀ c ∈ w.children root, P c)
    (policy : caps.supports .destinationRule = true →
      ∀ b, P (Child.trafficPolicy root root.ns (s.serving root).service b)) :
    ∀ c ∈ s.children root caps, P c :=
  forall_children_of_mem (fun p _ => picker p) gateways workloads
    (fun served b _ _ => policy served b)

end Converge
