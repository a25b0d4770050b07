/-
  Converge.Proofs.Children.InRange — whatever is built from an accepted spec is in range.

  A cluster takes a child only if it is named and placed, its ports are ports, and it asks for at
  least one pod or request where it asks for any.  The numbers of a child come from the spec, by
  way of the defaults, or are fixed; validation looks at all of those that come from the spec.

  Main statements:
    * `Install.Spec.children_inRange`, `Simulator.Spec.children_inRange` — children of valid specs.
    * `RootSpec.children_inRange_of_validate` — children of accepted specs of either kind.
-/
import Converge.Proofs.Children.Homes
import Converge.Proofs.Spec.Valid

namespace Converge

/-! ## §1. The numbers of a child -/

/-- The ports of a container and those that its probes ask. -/
def Container.allPorts (c : Container) : List Int32 :=
  c.ports.map (·.port)
    ++ (c.liveness.toList ++ c.readiness.toList ++ c.startup.toList).map Probe.port

namespace Body

/-- All ports in a body. -/
def ports : Body → List Int32
  | deployment d => d.containers.flatMap Container.allPorts
  | service s => s.ports.flatMap fun p => [p.port, p.target]
  | gateway g => g.listeners.map (·.port)
  | httpRoute r => (r.rules.flatMap (·.backends)).filterMap (·.port)
  | serviceAccount | role _ | roleBinding _ | configMap _ | referenceGrant _
  | destinationRule _ => []

/-- The replicas and the limits of connection pools in a body. -/
def amounts : Body → List Int32
  | deployment d => [d.replicas]
  | destinationRule d => d.pool.toList.flatMap fun p => [p.pendingRequests, p.requestsPerConnection]
  | serviceAccount | role _ | roleBinding _ | configMap _ | service _ | gateway _ | httpRoute _
  | referenceGrant _ => []

/-- All ports are ports, and at least one is asked for of whatever is asked for. -/
structure InRange (b : Body) : Prop where
  ports : ∀ n ∈ b.ports, IsPort n
  amounts : ∀ n ∈ b.amounts, 0 < n

/-- A body without numbers. -/
theorem inRange_plain {b : Body} (ports : b.ports = []) (amounts : b.amounts = []) : b.InRange where
  ports := ports ▸ List.forall_mem_nil _
  amounts := amounts ▸ List.forall_mem_nil _

theorem inRange_deployment {d : Deployment} (replicas : 0 < d.replicas)
    (ports : ∀ c ∈ d.containers, ∀ n ∈ c.allPorts, IsPort n) : (deployment d).InRange where
  ports := List.forall_mem_flatMap.mpr ports
  amounts := List.forall_mem_singleton.mpr replicas

theorem inRange_service {type name : String} {selector : Table String String} {port target : Int32}
    (hport : IsPort port) (htarget : IsPort target) :
    (service ⟨type, selector, [⟨name, port, target⟩]⟩).InRange where
  ports := List.forall_mem_cons.mpr ⟨hport, List.forall_mem_singleton.mpr htarget⟩
  amounts := List.forall_mem_nil _

end Body

/-- A child that a cluster can take: it is named and placed, and its body is in range. -/
structure Child.InRange (c : Child) : Prop where
  name : c.name ≠ ""
  ns : c.ns ≠ ""
  body : c.body.InRange

/-! ## §2. Names with their defaults -/

theorem orText_ne_empty (s : String) {d : String} (hd : d ≠ "") : orText s d ≠ "" := by
  unfold orText
  split
  · exact hd
  · assumption

/-! ## §3. Pickers and traffic policies -/

theorem Child.trafficPolicy_inRange {root : Root} {ns service : String} {b : Balancing}
    (placed : ns ≠ "") (valid : b.Valid) : (Child.trafficPolicy root ns service b).InRange where
  name := by simp [trafficPolicy, make, Naming.policy]
  ns := placed
  body :=
    { ports := List.forall_mem_nil _
      amounts := by
        refine List.forall_mem_flatMap.mpr ?_
        intro p hp
        obtain ⟨pending, requests⟩ := valid.pool p (Option.mem_toList.mp hp)
        exact List.forall_mem_cons.mpr ⟨pending, List.forall_mem_singleton.mpr requests⟩ }

namespace PickerPlan

theorem container_ports (p : PickerPlan) : ∀ n ∈ p.container.allPorts, IsPort n := by
  have hhealth : IsPort healthPort := by decide
  show ∀ n ∈ [grpcPort, healthPort, metricsPort, healthPort, healthPort], IsPort n
  simp only [List.forall_mem_cons]
  exact ⟨by decide, hhealth, by decide, hhealth, hhealth, List.forall_mem_nil _⟩

theorem children_inRange {p : PickerPlan} (name : p.name ≠ "") (ns : p.ns ≠ "")
    (access : p.accessNamespace ≠ "") (replicas : 0 < p.replicas) (port : IsPort p.servicePort)
    (root : Root) : ∀ c ∈ p.children root, c.InRange := by
  have hconfig : p.configName ≠ "" := by simp [configName, Naming.pickerConfig]
  have hdeployment : (Body.deployment p.deployment).InRange :=
    Body.inRange_deployment replicas (List.forall_mem_singleton.mpr p.container_ports)
  refine forall_children ?account ?role ?binding ?config ?deployment ?service
  case account => exact ⟨name, ns, Body.inRange_plain rfl rfl⟩
  case role => exact ⟨name, access, Body.inRange_plain rfl rfl⟩
  case binding => exact ⟨name, access, Body.inRange_plain rfl rfl⟩
  case config => exact ⟨hconfig, ns, Body.inRange_plain rfl rfl⟩
  case deployment => exact ⟨name, ns, hdeployment⟩
  case service => exact ⟨name, ns, Body.inRange_service port (by decide)⟩

end PickerPlan

/-! ## §4. Children of a SchedulerInstall -/

namespace Install

/-- What may be left to the defaults to name or to place has its name and its place. -/
structure Spec.Named (s : Spec) : Prop where
  schedulerNamespace : s.schedulerNamespace ≠ ""
  proxy : s.proxy.name ≠ ""
  picker : ∀ p ∈ s.picker, p.name ≠ ""
  gateway : ∀ g ∈ s.gateway, g.name ≠ ""
  routing : ∀ r ∈ s.routing, r.routeName ≠ ""

/-- Names are never left empty: what they are taken from is the root's name with something after
    it, so that not even the root needs a name. -/
theorem Spec.named_withDefaults (root : String) {ns : String} (placed : ns ≠ "") (s : Spec) :
    (s.withDefaults root ns).Named where
  schedulerNamespace := orText_ne_empty _ placed
  proxy := orText_ne_empty _ (by simp [Naming.proxy])
  picker := by
    intro p hp
    obtain ⟨p, _, rfl⟩ := Option.map_eq_some_iff.mp hp
    exact orText_ne_empty _ (by simp [Naming.picker])
  gateway := by
    intro g hg
    obtain ⟨g, _, rfl⟩ := Option.map_eq_some_iff.mp hg
    exact orText_ne_empty _ (by simp [Naming.gateway])
  routing := by
    intro r hr
    obtain ⟨r, _, rfl⟩ := Option.map_eq_some_iff.mp hr
    exact orText_ne_empty _ (by simp [Naming.route])

/-- A pool without a port is led to without one. -/
theorem Spec.backend_port {s : Spec} (valid : s.Valid) : ∀ n ∈ s.backend.port, IsPort n := by
  unfold backend
  dsimp only
  split
  · rename_i p hp
    obtain ⟨r, hr, hpool⟩ := Option.bind_eq_some_iff.mp hp
    have hrouting := valid.routing r (Option.filter_eq_some_iff.mp hr).1
    intro n hn
    -- validation lets a zero pass, and the route then names no port
    rcases hrouting.pool p hpool with hzero | hport
    · simp [hzero] at hn
    · rw [if_pos hport.1] at hn
      exact Option.some.inj hn ▸ hport
  · intro n hn
    exact Option.some.inj hn ▸ valid.proxy.port

theorem Spec.children_inRange (root : Root) (caps : Capabilities) {s : Spec} (named : s.Named)
    (valid : s.Valid) : ∀ c ∈ s.children root caps, c.InRange := by
  have hplaced := s.simulatorNamespace_ne (validate_eq_ok.mpr valid)
  have hscheduled := named.schedulerNamespace
  refine forall_children_of_mem ?picker ?gateway ?proxy ?grant ?route ?policy
  case picker =>
    intro p hp
    have hvalid := valid.picker p hp
    exact PickerPlan.children_inRange (named.picker p hp) hscheduled hplaced hvalid.replicas
      hvalid.port root
  case gateway =>
    intro _ g hg
    exact ⟨named.gateway g hg, hscheduled, List.forall_mem_singleton.mpr (valid.gateway g hg),
      List.forall_mem_nil _⟩
  case proxy =>
    exact ⟨named.proxy, hplaced, Body.inRange_service valid.proxy.port valid.proxy.targetPort⟩
  case grant =>
    have hname : Naming.grant root.name ≠ "" := by simp [Naming.grant]
    exact fun _ => ⟨hname, hplaced, Body.inRange_plain rfl rfl⟩
  case route =>
    intro _ c hc
    obtain ⟨r, hr, rfl⟩ := Option.map_eq_some_iff.mp hc
    refine ⟨named.routing r hr, hscheduled, ?_, List.forall_mem_nil _⟩
    intro n hn
    obtain ⟨b, hb, hport⟩ := List.mem_filterMap.mp hn
    obtain rfl : b = s.backend := by simpa using hb
    exact s.backend_port valid n hport
  case policy => exact fun _ b hb _ => Child.trafficPolicy_inRange hplaced (valid.balancing b hb)

end Install

/-! ## §5. Children of a SimulatorDeployment -/

namespace Simulator

/-- A gateway with a name, some pods and a port. -/
structure GatewayPlan.InRange (p : GatewayPlan) : Prop where
  name : p.name ≠ ""
  scaled : Scaled p.config.replicas p.config.port

theorem GatewayInstance.container_ports (g : GatewayInstance) (f : Flavor) :
    ∀ n ∈ (g.container f).allPorts, IsPort n := by
  cases f with
  | standard =>
    have hadmin : IsPort envoyAdminPort := by decide
    show ∀ n ∈ [envoyListenerPort, envoyMonitoringPort, envoyAdminPort, envoyAdminPort], IsPort n
    simp only [List.forall_mem_cons]
    exact ⟨by decide, by decide, hadmin, hadmin, List.forall_mem_nil _⟩
  | istio =>
    show ∀ n ∈ [istioProxyPort], IsPort n
    exact List.forall_mem_singleton.mpr (by decide)

theorem GatewayPlan.targetPort_isPort (p : GatewayPlan) : IsPort p.targetPort := by
  unfold targetPort
  cases p.flavor <;> decide

theorem GatewayPlan.children_inRange {p : GatewayPlan} (h : p.InRange) {root : Root}
    (placed : root.ns ≠ "") (backend : Endpoint) : ∀ c ∈ p.children root backend, c.InRange := by
  refine forall_children ?config ?deployment ?service
  case config => exact fun _ => ⟨h.name, placed, Body.inRange_plain rfl rfl⟩
  case deployment =>
    exact ⟨h.name, placed, Body.inRange_deployment h.scaled.replicas
      (List.forall_mem_singleton.mpr (p.config.container_ports p.flavor))⟩
  case service =>
    exact ⟨h.name, placed, Body.inRange_service h.scaled.port p.targetPort_isPort⟩

/-- A workload with names, some pods and a port. -/
structure Workload.InRange (w : Workload) : Prop where
  deployment : w.deployment ≠ ""
  service : w.service ≠ ""
  scaled : Scaled w.replicas w.port

theorem Workload.children_inRange {w : Workload} (h : w.InRange) {root : Root}
    (placed : root.ns ≠ "") : ∀ c ∈ w.children root, c.InRange := by
  refine forall_children ?deployment ?service
  case deployment =>
    exact ⟨h.deployment, placed, Body.inRange_deployment h.scaled.replicas
      (List.forall_mem_singleton.mpr (List.forall_mem_singleton.mpr h.scaled.port))⟩
  case service => exact ⟨h.service, placed, Body.inRange_service h.scaled.port h.scaled.port⟩

namespace Spec

variable {s : Spec} (valid : s.Valid) (root : Root)

include valid

theorem gatewayPlans_inRange : ∀ p ∈ s.gatewayPlans root, p.InRange := by
  unfold gatewayPlans
  split
  · exact List.forall_mem_nil _
  · rename_i g hg
    have hvalid := valid.gateways g (Option.filter_eq_some_iff.mp hg).1
    refine List.forall_mem_append.mpr ⟨?standard, ?istio⟩
    case standard =>
      intro p hp
      obtain ⟨i, hi, rfl⟩ := Option.map_eq_some_iff.mp (Option.mem_toList.mp hp)
      exact ⟨by simp [Naming.simGateway], hvalid.standard i (Option.filter_eq_some_iff.mp hi).1⟩
    case istio =>
      intro p hp
      obtain ⟨i, hi, rfl⟩ := Option.map_eq_some_iff.mp (Option.mem_toList.mp hp)
      exact ⟨by simp [Naming.simIstioGateway], hvalid.istio i (Option.filter_eq_some_iff.mp hi).1⟩

theorem workloads_inRange (named : s.service.name ≠ "") : ∀ w ∈ s.workloads root, w.InRange := by
  have hstage (name : String) {o : Option Stage}
      (scaled : ∀ t ∈ o, Scaled t.replicas t.port) :
      ∀ w ∈ ((o.filter (·.enabled)).map (Stage.workload root name)).toList, w.InRange := by
    intro w hw
    obtain ⟨t, ht, rfl⟩ := Option.map_eq_some_iff.mp (Option.mem_toList.mp hw)
    have hname : Naming.stage root.name name ≠ "" := by simp [Naming.stage]
    exact ⟨hname, hname, scaled t (Option.filter_eq_some_iff.mp ht).1⟩
  unfold workloads
  split
  · exact List.forall_mem_append.mpr
      ⟨hstage prefillStage valid.prefill, hstage decodeStage valid.decode⟩
  · have hname : Naming.unstaged root.name ≠ "" := by simp [Naming.unstaged, Naming.stage]
    exact List.forall_mem_singleton.mpr ⟨hname, named, valid.replicas, valid.service.port⟩

theorem children_inRange (caps : Capabilities) (named : s.service.name ≠ "")
    (placed : root.ns ≠ "") : ∀ c ∈ s.children root caps, c.InRange := by
  refine forall_children_of_mem ?picker ?gateways ?workloads ?policy
  case picker =>
    intro p hp
    have hscaled := valid.picker p hp
    have hname : Naming.simPicker root.name ≠ "" := by simp [Naming.simPicker]
    exact PickerPlan.children_inRange hname placed placed hscaled.replicas hscaled.port root
  case gateways =>
    exact fun p hp => GatewayPlan.children_inRange (gatewayPlans_inRange valid root p hp) placed _
  case workloads =>
    exact fun w hw => Workload.children_inRange (workloads_inRange valid root named w hw) placed
  case policy => exact fun _ b hb _ => Child.trafficPolicy_inRange placed (valid.balancing b hb)

end Spec

end Simulator

/-! ## §6. Children of either -/

/-- Whatever is built from a spec that is accepted with its defaults is in range, for a root that
    has a namespace. -/
theorem RootSpec.children_inRange_of_validate (root : Root) (placed : root.ns ≠ "")
    (caps : Capabilities) (s : RootSpec)
    (accepted : (s.withDefaults root.name root.ns).validate = .ok ()) :
    ∀ c ∈ (s.withDefaults root.name root.ns).children root caps, c.InRange := by
  cases s with
  | install s =>
    have hvalid := Install.Spec.validate_eq_ok.mp accepted
    exact Install.Spec.children_inRange root caps (s.named_withDefaults root.name placed) hvalid
  | simulator s =>
    have hvalid := Simulator.Spec.validate_eq_ok.mp accepted
    have hservice : (s.withDefaults root.name).service.name ≠ "" :=
      orText_ne_empty _ (by simp [Naming.simProxy])
    exact Simulator.Spec.children_inRange hvalid root caps hservice placed

/-- An install with all of its blocks, every number and name of which is left to the defaults. -/
def everyBlock : RootSpec :=
  .install
    { simulatorNamespace := "sims"
      picker := some { enabled := true }
      gateway := some { enabled := true }
      routing := some { enabled := true, backendType := "InferencePool" }
      balancing := some { enabled := true } }

/-- Its root. -/
def everyBlockRoot : Root := ⟨.schedulerInstall, "demo", "default", "u-1"⟩

theorem children_inRange_of_validate_everyBlock :
    ((everyBlock.withDefaults "demo" "default").children everyBlockRoot {}).length = 11 ∧
      ∀ c ∈ (everyBlock.withDefaults "demo" "default").children everyBlockRoot {}, c.InRange :=
  ⟨by decide,
    RootSpec.children_inRange_of_validate everyBlockRoot (by decide) {} everyBlock rfl⟩

end Converge
