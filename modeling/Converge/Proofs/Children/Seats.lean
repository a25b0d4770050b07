/-
  Converge.Proofs.Children.Seats — what the key of a child says about the child.

  With child names left to their defaults, kind and name of a child tell which part of the
  root it plays, and with it its labels and the frame of its body.  Names of children of one
  kind differ in their last two letters.

  Main statement: `RootSpec.alike_of_key` — children of one root that have the same key, built
  from any two specs, have the same managed labels and bodies with the same frame.
-/
import Converge.Proofs.Body.Frame
import Converge.Proofs.Children.Proper

namespace Converge

/-! ## §1. Endings -/

/-- The last two letters of a name, the last one first. -/
def ending (name : String) : List Char := name.toList.reverse.take 2

theorem ending_append (s : String) {t : String} (h : 2 ≤ t.toList.length) :
    ending (s ++ t) = ending t := by
  unfold ending
  rw [String.toList_append, List.reverse_append, List.take_append_of_le_length]
  rwa [List.length_reverse]

/-! ## §2. Seats -/

/-- Labels and frame of the body, for every kind and ending. -/
abbrev Seats := Kind → List Char → Table String String × Body

/-- The child hangs on the root as its namespace demands, and has the labels and the frame of
    its seat. -/
structure Child.SeatedIn (seats : Seats) (root : Root) (c : Child) : Prop where
  link : c.link = root.linkIn c.ns
  labels : c.labels = (seats c.body.kind (ending c.name)).1
  frame : c.body.frame = (seats c.body.kind (ending c.name)).2

theorem Child.seatedIn {seats : Seats} {root : Root} {c : Child} (link : c.link = root.linkIn c.ns)
    (seat : seats c.body.kind (ending c.name) = (c.labels, c.body.frame)) :
    c.SeatedIn seats root :=
  ⟨link, (congrArg Prod.fst seat).symm, (congrArg Prod.snd seat).symm⟩

/-- Children with the same key in the same seats are alike. -/
theorem Child.SeatedIn.alike {seats : Seats} {root : Root} {b c : Child}
    (hb : b.SeatedIn seats root) (hc : c.SeatedIn seats root) (same : b.key = c.key) :
    b.managedLabels = c.managedLabels ∧ b.body.frame = c.body.frame := by
  have hkind : b.body.kind = c.body.kind := congrArg Key.kind same
  have hns : b.ns = c.ns := congrArg Key.ns same
  have hname : b.name = c.name := congrArg Key.name same
  have hlabels : b.labels = c.labels := by
    rw [hb.labels, hc.labels, hkind, hname]
  have hlink : b.link = c.link := by
    rw [hb.link, hc.link, hns]
  refine ⟨?_, ?_⟩
  · unfold managedLabels
    rw [hlink, hlabels]
  · rw [hb.frame, hc.frame, hkind, hname]

/-! ## §3. Pickers -/

namespace PickerPlan

/-- The parts of a plan its frame depends on. -/
def blank (p : PickerPlan) : PickerPlan :=
  { p with
    ns := ""
    replicas := 0
    image := ""
    servicePort := 0
    verbosity := 0
    poolName := ""
    poolNamespace := ""
    accessNamespace := ""
    extraArgs := []
    resources := none }

/-- The seats of a picker: its service apart, each kind has one. -/
def seats (p : PickerPlan) : Kind → Table String String × Body
  | .role => (p.labels, .role ⟨[]⟩)
  | .roleBinding => (p.labels, .roleBinding ⟨p.name, "", ""⟩)
  | .configMap => (p.labels, .configMap [])
  | .deployment => (p.labels, .deployment p.deployment.frame)
  | .service => (p.labels, .service ⟨"", [], [⟨"grpc", 0, 0⟩]⟩)
  | _ => (p.labels, .serviceAccount)

theorem seats_blank (p : PickerPlan) (kind : Kind) : p.blank.seats kind = p.seats kind := by
  cases kind <;> rfl

/-- The children of a picker sit in its seats. -/
theorem children_seated (p : PickerPlan) (root : Root) {seats : Seats}
    (here : ∀ kind ∈ [Kind.serviceAccount, .role, .roleBinding, .deployment, .service],
      seats kind (ending p.name) = p.seats kind)
    (config : seats .configMap (ending p.configName) = p.seats .configMap) :
    ∀ c ∈ p.children root, c.SeatedIn seats root := by
  simp only [List.forall_mem_cons] at here
  obtain ⟨haccount, hrole, hbinding, hworkload, hservice, _⟩ := here
  refine forall_children ?account ?role ?binding ?config ?workload ?service
  case account => exact Child.seatedIn rfl haccount
  case role => exact Child.seatedIn rfl hrole
  case binding => exact Child.seatedIn rfl hbinding
  case config => exact Child.seatedIn rfl config
  case workload => exact Child.seatedIn rfl hworkload
  case service => exact Child.seatedIn rfl hservice

end PickerPlan

/-! ## §4. Traffic policies -/

/-- An enabled policy has a pool. -/
theorem Balancing.pool_withDefaults {b : Balancing} (h : b.enabled = true) :
    b.withDefaults.pool.isSome = true := by
  unfold withDefaults
  cases b.pool <;> simp [h]

/-- The seat of a traffic policy. -/
def policySeat (root : Root) : Table String String × Body :=
  ([(nameLabel, root.name)], .destinationRule ⟨"", "", some {}⟩)

theorem Child.trafficPolicy_seated (root : Root) (ns service : String) {b : Balancing}
    (pool : b.pool.isSome = true) {seats : Seats}
    (here : ∀ e, seats .destinationRule e = policySeat root) :
    (Child.trafficPolicy root ns service b).SeatedIn seats root := by
  obtain ⟨p, hp⟩ := Option.isSome_iff_exists.mp pool
  refine Child.seatedIn rfl ?_
  show seats .destinationRule _
    = ([(nameLabel, root.name)], .destinationRule ⟨"", "", b.pool.map fun _ => {}⟩)
  rw [here, hp]
  rfl

/-! ## §5. Children of a SchedulerInstall -/

namespace Install

/-- Child names are left to their defaults. -/
structure Spec.NamesLeft (s : Spec) : Prop where
  proxy : s.proxy.name = ""
  picker : ∀ p, s.picker = some p → p.name = ""
  gateway : ∀ g, s.gateway = some g → g.name = ""
  route : ∀ r, s.routing = some r → r.routeName = ""

/-- The plan of every picker of a root, as far as its frame depends on it. -/
def pickerFrame (root : Root) : PickerPlan :=
  (Picker.plan root {} { name := Naming.picker root.name }).blank

/-- The seats of the children of a root. -/
def seats (root : Root) : Seats := fun kind e =>
  match kind with
  | .service =>
    if e = ending "-epp" then (pickerFrame root).seats .service
    else (rootLabels root, .service ⟨"", [], [⟨"http", 0, 0⟩]⟩)
  | .gateway => (rootLabels root, .gateway ⟨"", [⟨"default", 0, ""⟩]⟩)
  | .httpRoute =>
    (rootLabels root, .httpRoute
      ⟨[], [{ paths := [⟨"PathPrefix", "/"⟩], backends := [], timeouts := some ⟨"0s", "0s"⟩ }]⟩)
  | .referenceGrant => (rootLabels root, .referenceGrant ⟨[], []⟩)
  | .destinationRule => policySeat root
  | kind => (pickerFrame root).seats kind

theorem Picker.plan_seated (root : Root) (s : Spec) {p : Picker}
    (name : p.name = Naming.picker root.name) :
    ∀ c ∈ (p.plan root s).children root, c.SeatedIn (seats root) root := by
  have hblank : (p.plan root s).blank = pickerFrame root := by
    unfold Picker.plan PickerPlan.blank pickerFrame
    rw [name]
    rfl
  have hseats : ∀ kind, (p.plan root s).seats kind = (pickerFrame root).seats kind := by
    intro kind
    rw [← PickerPlan.seats_blank, hblank]
  have hname : ending (p.plan root s).name = ending "-epp" := by
    show ending p.name = _
    rw [name]
    exact ending_append root.name (by decide)
  refine PickerPlan.children_seated _ root ?_ ?_
  · simp only [List.forall_mem_cons, hname, hseats]
    exact ⟨rfl, rfl, rfl, rfl, rfl, by simp⟩
  · rw [hseats]
    rfl

theorem Spec.children_seated (root : Root) (caps : Capabilities) {s : Spec} (names : s.NamesLeft) :
    ∀ c ∈ (s.withDefaults root.name root.ns).children root caps,
      c.SeatedIn (seats root) root := by
  refine Spec.forall_children_of_mem ?picker ?gateway ?proxy ?grant ?route ?policy
  case picker =>
    intro p hp
    obtain ⟨q, hq, rfl⟩ := Option.map_eq_some_iff.mp hp
    refine Picker.plan_seated root _ ?_
    show orText q.name (Naming.picker root.name) = _
    rw [names.picker q hq]
    rfl
  case gateway => exact fun _ _ _ => ⟨rfl, rfl, rfl⟩
  case proxy =>
    -- it shares its kind with the service of the picker
    have hname : (s.withDefaults root.name root.ns).proxy.name = Naming.proxy root.name := by
      show orText s.proxy.name _ = _
      rw [names.proxy]
      rfl
    have hend : ending (s.withDefaults root.name root.ns).proxy.name = ending "-proxy" := by
      rw [hname]
      exact ending_append root.name (by decide)
    have hseat : seats root .service (ending (s.withDefaults root.name root.ns).proxy.name)
        = (rootLabels root, .service ⟨"", [], [⟨"http", 0, 0⟩]⟩) := by
      rw [hend]
      rfl
    exact Child.seatedIn rfl hseat
  case grant => exact fun _ => ⟨rfl, rfl, rfl⟩
  case route =>
    intro _ c hc
    obtain ⟨r, _, rfl⟩ := Option.map_eq_some_iff.mp hc
    exact ⟨rfl, rfl, rfl⟩
  case policy =>
    intro _ b hb on
    obtain ⟨d, _, rfl⟩ := Option.map_eq_some_iff.mp hb
    exact Child.trafficPolicy_seated root _ _ (Balancing.pool_withDefaults (b := d) on) fun _ => rfl

end Install

/-! ## §6. Children of a SimulatorDeployment -/

namespace Simulator

/-- The plan of every picker of a root, as far as its frame depends on it. -/
def pickerFrame (root : Root) : PickerPlan := (Picker.plan root {}).blank

/-- The labels of a workload of a stage. -/
def stageLabels (root : Root) (stage : String) : Table String String :=
  Table.ofEntries [(roleLabel, stage), (servingLabel, "true"), (nameLabel, root.name)]

/-- The seat of the deployment of a stage. -/
def stageSeat (root : Root) (stage : String) : Table String String × Body :=
  (stageLabels root stage, .deployment {
    replicas := 0
    selector := stageLabels root stage
    podLabels := stageLabels root stage
    containers := [{
      name := stage, image := "", pullPolicy := "", args := [], ports := [⟨"http", 0⟩] }] })

/-- The seat of the deployment of a gateway. -/
def gatewaySeat (root : Root) (name : String) (flavor : Flavor) : Table String String × Body :=
  let plan : GatewayPlan := ⟨name, flavor, {}⟩
  (plan.labels root, .deployment (plan.deployment root).frame)

/-- The seat of a service with a port for requests. -/
def serviceSeat (labels : Table String String) : Table String String × Body :=
  (labels, .service ⟨"", [], [⟨"http", 0, 0⟩]⟩)

/-- The labels of a gateway. -/
def gatewayLabels (root : Root) (name : String) (flavor : Flavor) : Table String String :=
  (⟨name, flavor, {}⟩ : GatewayPlan).labels root

/-- The seats of the children of a root. -/
def seats (root : Root) : Seats := fun kind e =>
  let standard := Naming.simGateway root.name
  let istio := Naming.simIstioGateway root.name
  match kind with
  | .configMap =>
    if e = ending "-config" then (pickerFrame root).seats .configMap
    else (gatewayLabels root standard .standard, .configMap [])
  | .deployment =>
    if e = ending "-epp" then (pickerFrame root).seats .deployment
    else if e = ending "-gateway" then gatewaySeat root standard .standard
    else if e = ending "-istio" then gatewaySeat root istio .istio
    else if e = ending prefillStage then stageSeat root prefillStage
    else stageSeat root decodeStage
  | .service =>
    if e = ending "-epp" then (pickerFrame root).seats .service
    else if e = ending "-gateway" then serviceSeat (gatewayLabels root standard .standard)
    else if e = ending "-istio" then serviceSeat (gatewayLabels root istio .istio)
    else if e = ending prefillStage then serviceSeat (stageLabels root prefillStage)
    else serviceSeat (stageLabels root decodeStage)
  | .destinationRule => policySeat root
  | kind => (pickerFrame root).seats kind

theorem Picker.plan_seated (root : Root) (p : Picker) :
    ∀ c ∈ (p.plan root).children root, c.SeatedIn (seats root) root := by
  have hseats : ∀ kind, (p.plan root).seats kind = (pickerFrame root).seats kind := by
    intro kind
    cases kind <;> rfl
  have hname : ending (p.plan root).name = ending "-epp" :=
    ending_append root.name (t := "-sim-epp") (by decide)
  have hconfig : ending (p.plan root).configName = ending "-config" :=
    ending_append (Naming.simPicker root.name) (by decide)
  refine PickerPlan.children_seated _ root ?_ ?_
  · simp only [List.forall_mem_cons, hname, hseats]
    exact ⟨rfl, rfl, rfl, rfl, rfl, by simp⟩
  · rw [hseats, hconfig]
    rfl

/-- The frame of a gateway's deployment does not depend on its settings. -/
theorem GatewayPlan.deployment_frame (p : GatewayPlan) (root : Root) :
    (p.labels root, Body.deployment (p.deployment root).frame)
      = gatewaySeat root p.name p.flavor := by
  obtain ⟨name, flavor, config⟩ := p
  cases flavor <;> rfl

theorem GatewayPlan.children_seated (p : GatewayPlan) (root : Root) (backend : Endpoint)
    (config : p.flavor = .standard →
      seats root .configMap (ending p.name) = (p.labels root, .configMap []))
    (workload : seats root .deployment (ending p.name) = gatewaySeat root p.name p.flavor)
    (service : seats root .service (ending p.name) = serviceSeat (p.labels root)) :
    ∀ c ∈ p.children root backend, c.SeatedIn (seats root) root := by
  refine forall_children ?config ?workload ?service
  case config => exact fun standard => Child.seatedIn rfl (config standard)
  case workload => exact Child.seatedIn rfl (workload.trans (p.deployment_frame root).symm)
  case service => exact Child.seatedIn rfl service

theorem standardPlan_seated (root : Root) (g : GatewayInstance) (backend : Endpoint) :
    ∀ c ∈ (⟨Naming.simGateway root.name, .standard, g⟩ : GatewayPlan).children root backend,
      c.SeatedIn (seats root) root := by
  have hend : ending (Naming.simGateway root.name) = ending "-gateway" :=
    ending_append root.name (t := "-sim-gateway") (by decide)
  refine GatewayPlan.children_seated _ root backend ?_ ?_ ?_
  · intro _
    rw [hend]
    rfl
  · rw [hend]
    rfl
  · rw [hend]
    rfl

theorem istioPlan_seated (root : Root) (g : GatewayInstance) (backend : Endpoint) :
    ∀ c ∈ (⟨Naming.simIstioGateway root.name, .istio, g⟩ : GatewayPlan).children root backend,
      c.SeatedIn (seats root) root := by
  have hend : ending (Naming.simIstioGateway root.name) = ending "-istio" :=
    ending_append root.name (t := "-sim-gateway-istio") (by decide)
  refine GatewayPlan.children_seated _ root backend nofun ?_ ?_
  · rw [hend]
    rfl
  · rw [hend]
    rfl

/-- The children of a workload sit in the seats of its stage. -/
theorem Workload.children_seated (w : Workload) (root : Root)
    (workload : seats root .deployment (ending w.deployment) = stageSeat root w.stage)
    (service : seats root .service (ending w.service)
      = serviceSeat (stageLabels root w.stage)) :
    ∀ c ∈ w.children root, c.SeatedIn (seats root) root :=
  forall_children (Child.seatedIn rfl workload) (Child.seatedIn rfl service)

theorem Stage.workload_seated (root : Root) (s : Stage) {name : String}
    (known : name = prefillStage ∨ name = decodeStage) :
    ∀ c ∈ (Stage.workload root name s).children root, c.SeatedIn (seats root) root := by
  have hlen : 2 ≤ name.toList.length := by
    rcases known with rfl | rfl <;> decide
  have hend : ending (Naming.stage root.name name) = ending name := ending_append _ hlen
  refine Workload.children_seated _ root ?_ ?_
  · show seats root .deployment (ending (Naming.stage root.name name)) = stageSeat root name
    rw [hend]
    rcases known with rfl | rfl <;> rfl
  · show seats root .service (ending (Naming.stage root.name name)) = _
    rw [hend]
    rcases known with rfl | rfl <;> rfl

theorem Spec.unstagedWorkload_seated (root : Root) {s : Spec}
    (name : s.service.name = Naming.simProxy root.name) :
    ∀ c ∈ (s.unstagedWorkload root).children root, c.SeatedIn (seats root) root := by
  have hworkload : ending (Naming.unstaged root.name) = ending decodeStage :=
    ending_append _ (by decide)
  have hservice : ending (Naming.simProxy root.name) = ending "-proxy" :=
    ending_append root.name (t := "-sim-proxy") (by decide)
  refine Workload.children_seated _ root ?_ ?_
  · show seats root .deployment (ending (Naming.unstaged root.name)) = _
    rw [hworkload]
    rfl
  · show seats root .service (ending s.service.name) = _
    rw [name, hservice]
    rfl

theorem Spec.children_seated (root : Root) (caps : Capabilities) {s : Spec}
    (name : s.service.name = "") :
    ∀ c ∈ (s.withDefaults root.name).children root caps, c.SeatedIn (seats root) root := by
  refine Spec.forall_children_of_mem ?picker ?gateways ?workloads ?policy
  case picker => exact fun p _ => Picker.plan_seated root p
  case gateways =>
    -- one for each flavor
    intro p hp
    unfold gatewayPlans at hp
    split at hp
    · cases hp
    · rcases List.mem_append.mp hp with hp | hp
      · obtain ⟨g, _, rfl⟩ := Option.map_eq_some_iff.mp (Option.mem_toList.mp hp)
        exact standardPlan_seated root g _
      · obtain ⟨g, _, rfl⟩ := Option.map_eq_some_iff.mp (Option.mem_toList.mp hp)
        exact istioPlan_seated root g _
  case workloads =>
    -- those of stages, or the one that stands in for them and sits in the decode seats
    intro w hw
    unfold workloads at hw
    split at hw
    · rcases List.mem_append.mp hw with hw | hw
      · obtain ⟨g, _, rfl⟩ := Option.map_eq_some_iff.mp (Option.mem_toList.mp hw)
        exact g.workload_seated root (.inl rfl)
      · obtain ⟨g, _, rfl⟩ := Option.map_eq_some_iff.mp (Option.mem_toList.mp hw)
        exact g.workload_seated root (.inr rfl)
    · rw [List.mem_singleton.mp hw]
      refine Spec.unstagedWorkload_seated root ?_
      show orText s.service.name _ = _
      rw [name]
      rfl
  case policy =>
    intro _ b hb on
    obtain ⟨d, _, rfl⟩ := Option.map_eq_some_iff.mp hb
    exact Child.trafficPolicy_seated root _ _ (Balancing.pool_withDefaults (b := d) on) fun _ => rfl

end Simulator

/-! ## §7. Children of either -/

namespace RootSpec

/-- The spec is one for the kind of root. -/
def kind : RootSpec → RootKind
  | install _ => .schedulerInstall
  | simulator _ => .simulatorDeployment

/-- Child names are left to their defaults. -/
def NamesLeft : RootSpec → Prop
  | install s => s.NamesLeft
  | simulator s => s.service.name = ""

/-- The seats of the children of a root. -/
def seats (root : Root) : RootKind → Seats
  | .schedulerInstall => Install.seats root
  | .simulatorDeployment => Simulator.seats root

theorem children_seated (root : Root) (caps : Capabilities) {s : RootSpec} (names : s.NamesLeft) :
    ∀ c ∈ (s.withDefaults root.name root.ns).children root caps,
      c.SeatedIn (seats root s.kind) root := by
  cases s with
  | install s => exact Install.Spec.children_seated root caps names
  | simulator s => exact Simulator.Spec.children_seated root caps names

/-- Children with the same key, from any two specs of a root and any capabilities, have the
    same labels and bodies with the same frame. -/
theorem alike_of_key {root : Root} {s t : RootSpec} (same : s.kind = t.kind) (hs : s.NamesLeft)
    (ht : t.NamesLeft) {caps capt : Capabilities} {b c : Child}
    (hb : b ∈ (s.withDefaults root.name root.ns).children root caps)
    (hc : c ∈ (t.withDefaults root.name root.ns).children root capt) (key : b.key = c.key) :
    b.managedLabels = c.managedLabels ∧ b.body.frame = c.body.frame := by
  have hseat := children_seated root capt ht c hc
  rw [← same] at hseat
  exact (children_seated root caps hs b hb).alike hseat key

end RootSpec

end Converge
