/-
  Converge.Proofs.Children.References — what a child refers to is built with it.

  A child names others: a binding its role and account, a workload its account and its
  configuration, a policy, a route and a gateway the service behind them.  Names, namespaces and
  ports are computed where a child refers and again where the other is built, and here the two
  are shown to agree.  Children are applied in order, so most of them refer to earlier ones only.

  Main statements:
    * `Child.allResolve_append` — lists of children that resolve are put together.
    * `RootSpec.references_resolve` — every reference in a child of any spec resolves.
-/
import Converge.Proofs.Children.Keys

namespace Converge

/-! ## §1. References -/

/-- The children have one with the key. -/
def Child.Has (cs : List Child) (key : Key) : Prop := ∃ d ∈ cs, d.key = key

/-- The children have a service of that name and namespace, which has the port. -/
def Child.Serves (cs : List Child) (ns name : String) (port : Int32) : Prop :=
  ∃ d ∈ cs, d.ns = ns ∧ d.name = name ∧
    ∃ s : Service, d.body = .service s ∧ ∃ p ∈ s.ports, p.port = port

/-- The children have a config map of that name and namespace, which has an entry for the key. -/
def Child.Configures (cs : List Child) (ns name key : String) : Prop :=
  ∃ d ∈ cs, d.ns = ns ∧ d.name = name ∧
    ∃ data : Table String String, d.body = .configMap data ∧ Table.has data key = true

/-- The values of a flag among arguments, which are flags each with its value after it. -/
def flagValues (flag : String) : List String → List String
  | name :: value :: rest =>
    if name = flag then value :: flagValues flag rest else flagValues flag rest
  | _ => []

/-- Role and account of a binding in a namespace are earlier children. -/
structure RoleBinding.Resolves (b : RoleBinding) (ns : String) (earlier : List Child) : Prop where
  role : Child.Has earlier ⟨.role, ns, b.role⟩
  account : Child.Has earlier ⟨.serviceAccount, b.accountNamespace, b.account⟩

/-- The container of a deployment in a namespace reads a file of an earlier config map.  Its
    arguments are its own ones and then `added`; its own ones give one path, which leads from the
    place of a volume to an entry of the config map in the volume. -/
def Container.FindsConfig (k : Container) (volumes : List Volume) (ns : String)
    (added : List String) (earlier : List Child) : Prop :=
  ∃ own path, k.args = own ++ added ∧ flagValues "--config-file" own = [path] ∧
    ∃ m ∈ k.mounts, ∃ v ∈ volumes, v.name = m.name ∧
      ∃ key, Child.Configures earlier ns v.configMap key ∧ path = m.path ++ "/" ++ key

/-- Account and volumes of a deployment in a namespace are earlier children, and what its
    containers mount are its volumes.  A picker finds its configuration, whatever arguments are
    added to its own. -/
structure Deployment.Resolves (d : Deployment) (ns : String) (added : List String)
    (earlier : List Child) : Prop where
  account : ∀ name, d.serviceAccount = some name → Child.Has earlier ⟨.serviceAccount, ns, name⟩
  volumes : ∀ v ∈ d.volumes, Child.Has earlier ⟨.configMap, ns, v.configMap⟩
  mounts : ∀ k ∈ d.containers, ∀ m ∈ k.mounts, ∃ v ∈ d.volumes, v.name = m.name
  config : ∀ k ∈ d.containers, k.name = "epp" → k.FindsConfig d.volumes ns added earlier

/-- The service backends of a route in a namespace are earlier services with that port, and the
    grant, where there is one among all children, is an earlier child. -/
structure HttpRoute.Resolves (r : HttpRoute) (ns : String) (all earlier : List Child) : Prop where
  backends : ∀ rule ∈ r.rules, ∀ b ∈ rule.backends, b.kind = "Service" →
    ∃ port, b.port = some port ∧ Child.Serves earlier (b.ns.getD ns) b.name port
  grant : ∀ g ∈ all, g.body.kind = .referenceGrant → g ∈ earlier

/-- The host of a policy is that of an earlier service. -/
def DestinationRule.Resolves (d : DestinationRule) (earlier : List Child) : Prop :=
  ∃ s ∈ earlier, s.body.kind = .service ∧ d.host = Naming.host s.name s.ns

/-- The lines at the end of a gateway's configuration, which name where it forwards to. -/
def Simulator.Endpoint.lines (e : Endpoint) : String :=
  "                address: " ++ e.service ++ "\n"
    ++ "                port_value: " ++ toString e.port.toInt ++ "\n"

/-- The data of a config map, where they configure a gateway, name a service of its namespace that
    is among all children, and a port of that service. -/
def Child.Forwards (data : Table String String) (ns : String) (all : List Child) : Prop :=
  ∀ text, Table.get? data Simulator.envoyConfigKey = some text →
    ∃ (front : String) (e : Simulator.Endpoint),
      Child.Serves all ns e.service e.port ∧ text = front ++ e.lines

/-- A body in a namespace refers to nothing but children, earlier ones for the most part. -/
def Body.Resolves (ns : String) (added : List String) (all earlier : List Child) : Body → Prop
  | .roleBinding b => b.Resolves ns earlier
  | .configMap data => Child.Forwards data ns all
  | .deployment d => d.Resolves ns added earlier
  | .httpRoute r => r.Resolves ns all earlier
  | .destinationRule d => d.Resolves earlier
  | .serviceAccount | .role _ | .service _ | .gateway _ | .referenceGrant _ => True

/-- The child refers to nothing but children.  A picker has the arguments `added` beside its own. -/
def Child.Resolves (added : List String) (all earlier : List Child) (c : Child) : Prop :=
  c.body.Resolves c.ns added all earlier

/-! ## §2. Lists of children that resolve -/

namespace Child

theorem Has.of_mem {cs : List Child} {d : Child} (hd : d ∈ cs) : Has cs d.key := ⟨d, hd, rfl⟩

variable {added : List String} {all earlier more : List Child}

theorem Has.mono {key : Key} (h : Has earlier key) (sub : earlier ⊆ more) : Has more key := by
  obtain ⟨d, hd, hkey⟩ := h
  exact ⟨d, sub hd, hkey⟩

theorem Serves.mono {ns name : String} {port : Int32} (h : Serves earlier ns name port)
    (sub : earlier ⊆ more) : Serves more ns name port := by
  obtain ⟨d, hd, hserves⟩ := h
  exact ⟨d, sub hd, hserves⟩

theorem Configures.mono {ns name key : String} (h : Configures earlier ns name key)
    (sub : earlier ⊆ more) : Configures more ns name key := by
  obtain ⟨d, hd, hconfigures⟩ := h
  exact ⟨d, sub hd, hconfigures⟩

/-- What resolves among some children resolves among more. -/
theorem Resolves.mono {c : Child} (h : c.Resolves added all earlier) (sub : earlier ⊆ more) :
    c.Resolves added all more := by
  unfold Resolves at h ⊢
  cases hb : c.body with
  | roleBinding b =>
    rw [hb] at h
    exact ⟨h.role.mono sub, h.account.mono sub⟩
  | configMap data =>
    rw [hb] at h
    exact h
  | deployment d =>
    rw [hb] at h
    refine ⟨fun name hname => (h.account name hname).mono sub,
      fun v hv => (h.volumes v hv).mono sub, h.mounts, fun k hk hname => ?_⟩
    obtain ⟨own, path, hargs, hflag, m, hm, v, hv, hvolume, key, hconfig, hpath⟩ :=
      h.config k hk hname
    exact ⟨own, path, hargs, hflag, m, hm, v, hv, hvolume, key, hconfig.mono sub, hpath⟩
  | httpRoute r =>
    rw [hb] at h
    refine ⟨fun rule hrule b hb hkind => ?_, fun g hg hkind => sub (h.grant g hg hkind)⟩
    obtain ⟨port, hport, hserves⟩ := h.backends rule hrule b hb hkind
    exact ⟨port, hport, hserves.mono sub⟩
  | destinationRule d =>
    rw [hb] at h
    obtain ⟨s, hs, hservice⟩ := h
    exact ⟨s, sub hs, hservice⟩
  | serviceAccount | role _ | service _ | gateway _ | referenceGrant _ => trivial

/-- Each of the children resolves in view of those before it, `earlier` among them. -/
def AllResolve (added : List String) (all : List Child) : List Child → List Child → Prop
  | _, [] => True
  | earlier, c :: later =>
    c.Resolves added all earlier ∧ AllResolve added all (earlier ++ [c]) later

theorem allResolve_append {xs ys : List Child} :
    AllResolve added all earlier (xs ++ ys) ↔
      AllResolve added all earlier xs ∧ AllResolve added all (earlier ++ xs) ys := by
  induction xs generalizing earlier with
  | nil => simp [AllResolve]
  | cons x xs ih =>
    rw [List.cons_append, AllResolve, AllResolve, ih, and_assoc, List.append_assoc]
    rfl

theorem AllResolve.mono {xs : List Child} (h : AllResolve added all earlier xs)
    (sub : earlier ⊆ more) : AllResolve added all more xs := by
  induction xs generalizing earlier more with
  | nil => trivial
  | cons x xs ih => exact ⟨h.1.mono sub, ih h.2 (List.append_subset.mpr
      ⟨List.subset_append_of_subset_left _ sub, List.subset_append_right _ _⟩)⟩

theorem allResolve_of_forall {xs : List Child} (h : ∀ c ∈ xs, c.Resolves added all earlier) :
    AllResolve added all earlier xs := by
  induction xs generalizing earlier with
  | nil => trivial
  | cons x xs ih =>
    refine ⟨h x List.mem_cons_self, ih fun c hc => ?_⟩
    exact (h c (List.mem_cons_of_mem _ hc)).mono (List.subset_append_left _ _)

theorem allResolve_flatMap {α : Type} {f : α → List Child} {as : List α}
    (h : ∀ a ∈ as, AllResolve added all earlier (f a)) :
    AllResolve added all earlier (as.flatMap f) := by
  induction as generalizing earlier with
  | nil => trivial
  | cons a as ih =>
    rw [List.flatMap_cons, allResolve_append]
    refine ⟨h a List.mem_cons_self, ih fun b hb => ?_⟩
    exact (h b (List.mem_cons_of_mem _ hb)).mono (List.subset_append_left _ _)

theorem AllResolve.resolves {before after : List Child} {c : Child}
    (h : AllResolve added all [] (before ++ c :: after)) : c.Resolves added all before :=
  (allResolve_append.mp h).2.1

end Child

/-! ## §3. Children of a picker -/

section Picker

variable {p : PickerPlan} {all earlier : List Child}

/-- The own arguments of a picker. -/
def PickerPlan.ownArgs (p : PickerPlan) : List String := PickerPlan.args { p with extraArgs := [] }

theorem PickerPlan.args_eq (p : PickerPlan) : p.args = p.ownArgs ++ p.extraArgs := by
  unfold ownArgs args
  rw [List.append_nil]
  rfl

theorem PickerPlan.flagValues_ownArgs (p : PickerPlan) :
    flagValues "--config-file" p.ownArgs = [p.configFile] := by
  simp [ownArgs, args, flagValues, configFile]

/-- A picker whose mount has no slash at its end finds its configuration. -/
theorem PickerPlan.finds_config (mount : withoutTrailingSlashes p.mountPath = p.mountPath)
    (configured : Child.Configures earlier p.ns p.configName p.configKey) :
    p.container.FindsConfig p.deployment.volumes p.ns p.extraArgs earlier := by
  refine ⟨p.ownArgs, p.configFile, p.args_eq, p.flagValues_ownArgs,
    ⟨p.volumeName, p.mountPath⟩, List.mem_cons_self, ⟨p.volumeName, p.configName⟩,
    List.mem_cons_self, rfl, p.configKey, configured, ?_⟩
  unfold configFile
  rw [mount]

/-- Everything in a picker refers to what comes before it there. -/
theorem PickerPlan.children_resolve (root : Root)
    (mount : withoutTrailingSlashes p.mountPath = p.mountPath)
    (key : p.configKey ≠ Simulator.envoyConfigKey) :
    Child.AllResolve p.extraArgs all [] (p.children root) := by
  unfold children
  refine ⟨trivial, trivial, ?binding, ?config, ?workload, trivial, trivial⟩
  case binding =>
    exact ⟨Child.Has.of_mem (List.mem_cons_of_mem _ List.mem_cons_self),
      Child.Has.of_mem List.mem_cons_self⟩
  case config =>
    -- it is not the configuration of a gateway
    intro text htext
    rw [Table.get?_cons, if_neg key] at htext
    exact absurd htext nofun
  case workload =>
    refine ⟨?account, ?volumes, ?mounts, ?config⟩
    case account =>
      intro name hname
      obtain rfl := Option.some.inj hname
      exact Child.Has.of_mem List.mem_cons_self
    case volumes =>
      intro v hv
      rw [List.mem_singleton.mp hv]
      exact Child.Has.of_mem (List.mem_append_right _ List.mem_cons_self)
    case mounts =>
      intro k hk m hm
      rw [List.mem_singleton.mp hk] at hm
      rw [List.mem_singleton.mp hm]
      exact ⟨_, List.mem_cons_self, rfl⟩
    case config =>
      intro k hk _
      rw [List.mem_singleton.mp hk]
      refine PickerPlan.finds_config mount ⟨_, List.mem_append_right _ List.mem_cons_self, rfl, rfl,
        _, rfl, ?_⟩
      simp [Table.has, Table.get?_cons]

end Picker

/-- The policy next to a service. -/
theorem Child.trafficPolicy_resolves {added : List String} {all earlier : List Child} (root : Root)
    {ns service : String} (b : Balancing) (served : Has earlier ⟨.service, ns, service⟩) :
    (Child.trafficPolicy root ns service b).Resolves added all earlier := by
  obtain ⟨d, hd, hkey⟩ := served
  refine ⟨d, hd, congrArg Key.kind hkey, ?_⟩
  rw [show d.name = service from congrArg Key.name hkey, show d.ns = ns from congrArg Key.ns hkey]

/-- So does the policy of an optional block. -/
theorem Child.policies_resolve {added : List String} {all earlier : List Child} {root : Root}
    {caps : Capabilities} {ns service : String} {balancing : Option Balancing}
    (served : Has earlier ⟨.service, ns, service⟩) :
    AllResolve added all earlier (policies root caps ns service balancing) :=
  policies_cases (motive := AllResolve added all earlier) trivial fun b _ _ =>
    ⟨trafficPolicy_resolves root b served, trivial⟩

/-! ## §4. Children of a SchedulerInstall -/

namespace Install

variable {added : List String} {all earlier : List Child}

theorem Spec.pickerChildren_resolve (root : Root) (s : Spec) :
    Child.AllResolve ((s.picker.map (·.args)).getD []) all [] (s.pickerChildren root) := by
  rw [s.pickerChildren_eq]
  refine Child.ofBlock_cases (motive := Child.AllResolve _ all []) trivial fun p hp _ => ?_
  rw [hp]
  have hmount : PickerPlan.withoutTrailingSlashes "/etc/epp" = "/etc/epp" := by decide
  have hkey : "epp-config.yaml" ≠ Simulator.envoyConfigKey := by decide
  exact PickerPlan.children_resolve (p := p.plan root s) root hmount hkey

theorem Spec.gatewayChildren_resolve (root : Root) (caps : Capabilities) (s : Spec) :
    Child.AllResolve added all earlier (s.gatewayChildren root caps) := by
  rw [s.gatewayChildren_eq]
  refine Child.ofBlock_cases (motive := Child.AllResolve added all earlier) trivial fun _ _ _ => ?_
  unfold Child.gated
  split
  · exact ⟨trivial, trivial⟩
  · trivial

theorem Spec.proxy_serves (root : Root) (s : Spec) (earlier : List Child) :
    Child.Serves (earlier ++ [s.proxyChild root]) s.simulatorNamespace s.proxy.name s.proxy.port :=
  ⟨s.proxyChild root, List.mem_append_right _ List.mem_cons_self, rfl, rfl, _, rfl, _,
    List.mem_cons_self, rfl⟩

/-- The one grant among the children comes with the route. -/
theorem Spec.grant_mem {root : Root} {caps : Capabilities} {s : Spec} {g : Child}
    (hg : g ∈ s.children root caps) (kind : g.body.kind = .referenceGrant) :
    g ∈ (if caps.supports .httpRoute && caps.supports .referenceGrant
      then [s.grantChild root] else []) := by
  unfold children at hg
  simp only [List.mem_append] at hg
  rcases hg with (((hg | hg) | hg) | hg) | hg
  · exact absurd hg (Child.not_mem_of_kinds (s.pickerChildren_kinds root) (by rw [kind]; decide))
  · exact absurd hg
      (Child.not_mem_of_kinds (s.gatewayChildren_kinds root caps) (by rw [kind]; decide))
  · rw [List.mem_singleton.mp hg] at kind
    exact absurd kind nofun
  · unfold routingChildren at hg
    split at hg
    · rcases List.mem_append.mp hg with hg | hg
      · exact hg
      · -- the route is no grant
        split at hg
        · obtain ⟨r, _, rfl⟩ := Option.map_eq_some_iff.mp (Option.mem_toList.mp hg)
          exact absurd kind nofun
        · cases hg
    · cases hg
  · exact absurd hg
      (Child.not_mem_of_kinds (s.policyChildren_kinds root caps) (by rw [kind]; decide))

theorem Spec.route_resolves {root : Root} {caps : Capabilities} {s : Spec} {c : Child}
    (hc : s.routeChild? root = some c)
    (proxy : Child.Serves earlier s.simulatorNamespace s.proxy.name s.proxy.port)
    (grant : ∀ g ∈ s.children root caps, g.body.kind = .referenceGrant → g ∈ earlier) :
    c.Resolves added (s.children root caps) earlier := by
  obtain ⟨r, _, rfl⟩ := Option.map_eq_some_iff.mp hc
  refine ⟨?_, grant⟩
  intro rule hrule b hb hkind
  rw [List.mem_singleton.mp hrule] at hb
  rw [List.mem_singleton.mp hb] at hkind ⊢
  unfold backend at hkind ⊢
  dsimp only at hkind ⊢
  split at hkind
  · -- a pool is no service
    exact absurd (show "InferencePool" = "Service" from hkind) (by decide)
  · exact ⟨s.proxy.port, rfl, proxy⟩

theorem Spec.routingChildren_resolve (root : Root) (caps : Capabilities) (s : Spec)
    (proxy : Child.Serves earlier s.simulatorNamespace s.proxy.name s.proxy.port) :
    Child.AllResolve added (s.children root caps) earlier (s.routingChildren root caps) := by
  unfold routingChildren
  split
  · rw [Child.allResolve_append]
    refine ⟨?grant, ?route⟩
    case grant =>
      split
      · exact ⟨trivial, trivial⟩
      · trivial
    case route =>
      refine Child.allResolve_of_forall fun c hc => ?_
      split at hc
      · refine Spec.route_resolves (Option.mem_toList.mp hc)
          (proxy.mono (List.subset_append_left _ _)) fun g hg kind => ?_
        exact List.mem_append_right _ (Spec.grant_mem hg kind)
      · cases hc
  · trivial

theorem Spec.children_resolve (root : Root) (caps : Capabilities) (s : Spec) :
    Child.AllResolve ((s.picker.map (·.args)).getD []) (s.children root caps) []
      (s.children root caps) := by
  have hproxy := s.proxy_serves root (s.pickerChildren root ++ s.gatewayChildren root caps)
  show Child.AllResolve _ _ [] (s.pickerChildren root ++ s.gatewayChildren root caps
    ++ [s.proxyChild root] ++ s.routingChildren root caps ++ s.policyChildren root caps)
  simp only [Child.allResolve_append, List.nil_append]
  refine ⟨⟨⟨⟨?picker, ?gateway⟩, ?proxy⟩, ?routing⟩, ?policy⟩
  case picker => exact s.pickerChildren_resolve root
  case gateway => exact s.gatewayChildren_resolve root caps
  case proxy => exact ⟨trivial, trivial⟩
  case routing => exact s.routingChildren_resolve root caps hproxy
  case policy =>
    have hhas : Child.Has (s.pickerChildren root ++ s.gatewayChildren root caps
        ++ [s.proxyChild root]) (s.proxyChild root).key :=
      .of_mem (List.mem_append_right _ List.mem_cons_self)
    rw [s.policyChildren_eq]
    exact Child.policies_resolve (hhas.mono (List.subset_append_left _ _))

end Install

/-! ## §5. Children of a SimulatorDeployment -/

namespace Simulator

variable {added : List String} {all earlier : List Child}

/-- A text of lines is that of the first of them and that of the others. -/
theorem intercalate_split {lines : List String} (n : Nat) (before : lines.take n ≠ [])
    (after : lines.drop n ≠ []) : String.intercalate "\n" lines
      = String.intercalate "\n" (lines.take n) ++ "\n"
        ++ String.intercalate "\n" (lines.drop n) := by
  conv_lhs => rw [← List.take_append_drop n lines]
  exact String.intercalate_append_of_ne_nil before after

theorem Endpoint.lines_eq (e : Endpoint) :
    String.intercalate "\n" ["                address: " ++ e.service,
      "                port_value: " ++ toString e.port.toInt, ""] = e.lines := by
  rw [String.intercalate_cons_cons, String.intercalate_cons_cons, String.intercalate_singleton,
    String.append_empty]
  unfold lines
  simp only [String.append_assoc]

/-- The configuration of a gateway ends with the endpoint that it forwards to. -/
theorem envoyConfig_eq (backend : Endpoint) :
    ∃ front, envoyConfig backend = front ++ backend.lines := by
  refine ⟨_, (intercalate_split 46 ?_ ?_).trans (congrArg _ backend.lines_eq)⟩
  · exact List.cons_ne_nil _ _
  · exact List.cons_ne_nil _ _

theorem GatewayPlan.children_resolve (p : GatewayPlan) (root : Root) {backend : Endpoint}
    (served : Child.Serves all root.ns backend.service backend.port) :
    Child.AllResolve added all earlier (p.children root backend) := by
  obtain ⟨name, flavor, config⟩ := p
  unfold children
  cases flavor with
  | standard =>
    refine ⟨?config, ?workload, trivial, trivial⟩
    case config =>
      intro text htext
      obtain rfl := Option.some.inj htext
      obtain ⟨front, hfront⟩ := envoyConfig_eq backend
      exact ⟨front, backend, served, hfront⟩
    case workload =>
      refine ⟨nofun, ?volumes, ?mounts, ?config⟩
      case volumes =>
        intro v hv
        rw [List.mem_singleton.mp hv]
        exact Child.Has.of_mem (List.mem_append_right _ List.mem_cons_self)
      case mounts =>
        intro k hk m hm
        rw [List.mem_singleton.mp hk] at hm
        rw [List.mem_singleton.mp hm]
        exact ⟨_, List.mem_cons_self, rfl⟩
      case config =>
        intro k hk hname
        rw [List.mem_singleton.mp hk] at hname
        exact absurd (show "kgateway-proxy" = "epp" from hname) (by decide)
  | istio =>
    refine ⟨?workload, trivial, trivial⟩
    refine ⟨nofun, fun v hv => absurd hv List.not_mem_nil, ?mounts, ?config⟩
    case mounts =>
      intro k hk m hm
      rw [List.mem_singleton.mp hk] at hm
      exact absurd hm List.not_mem_nil
    case config =>
      intro k hk hname
      rw [List.mem_singleton.mp hk] at hname
      exact absurd (show "istio-proxy" = "epp" from hname) (by decide)

/-- Workloads are those of the two stages, also where there are none in the spec. -/
theorem Workload.children_resolve {w : Workload} (root : Root) (stage : w.stage ≠ "epp") :
    Child.AllResolve added all earlier (w.children root) := by
  refine ⟨?workload, trivial, trivial⟩
  refine ⟨nofun, fun v hv => absurd hv List.not_mem_nil, ?mounts, ?config⟩
  case mounts =>
    intro k hk m hm
    rw [List.mem_singleton.mp hk] at hm
    exact absurd hm List.not_mem_nil
  case config =>
    intro k hk hname
    rw [List.mem_singleton.mp hk] at hname
    exact absurd hname stage

/-- The service that takes requests is one of the children, and has the port. -/
theorem Spec.serving_serves (root : Root) (s : Spec) :
    Child.Serves (s.workloadChildren root) root.ns (s.serving root).service
      (s.serving root).port := by
  obtain ⟨w, hw, hserving⟩ := s.serving_mem root
  rw [hserving]
  exact ⟨w.serviceChild root,
    List.mem_flatMap.mpr ⟨w, hw, List.mem_cons_of_mem _ List.mem_cons_self⟩, rfl, rfl, _, rfl, _,
    List.mem_cons_self, rfl⟩

theorem Spec.pickerChildren_resolve (root : Root) (s : Spec) :
    Child.AllResolve [] all [] (s.pickerChildren root) := by
  rw [s.pickerChildren_eq]
  refine Child.ofBlock_cases (motive := Child.AllResolve [] all []) trivial fun p _ _ => ?_
  have hmount : PickerPlan.withoutTrailingSlashes "/config" = "/config" := by decide
  have hkey : "default-plugins.yaml" ≠ envoyConfigKey := by decide
  exact PickerPlan.children_resolve (p := p.plan root) root hmount hkey

theorem Spec.children_resolve (root : Root) (caps : Capabilities) (s : Spec) :
    Child.AllResolve [] (s.children root caps) [] (s.children root caps) := by
  have hserving : Child.Serves (s.children root caps) root.ns (s.serving root).service
      (s.serving root).port :=
    (s.serving_serves root).mono
      (List.subset_append_of_subset_left _ (List.subset_append_right _ _))
  show Child.AllResolve _ _ [] (s.pickerChildren root ++ s.gatewayChildren root
    ++ s.workloadChildren root ++ s.policyChildren root caps)
  simp only [Child.allResolve_append, List.nil_append]
  refine ⟨⟨⟨?picker, ?gateways⟩, ?workloads⟩, ?policy⟩
  case picker => exact s.pickerChildren_resolve root
  case gateways => exact Child.allResolve_flatMap fun p _ => p.children_resolve root hserving
  case workloads =>
    refine Child.allResolve_flatMap fun w hw => Workload.children_resolve root ?_
    rcases Spec.workloads_stage hw with hstage | hstage
    · rw [hstage]
      decide
    · rw [hstage]
      decide
  case policy =>
    obtain ⟨d, hd, hns, hname, service, hbody, _⟩ := s.serving_serves root
    rw [s.policyChildren_eq]
    refine Child.policies_resolve ⟨d, List.mem_append_right _ hd, ?_⟩
    unfold Child.key
    rw [hbody, hns, hname]
    rfl

end Simulator

/-! ## §6. Children of either -/

/-- The arguments that a spec adds to those of its picker. -/
def RootSpec.pickerArgs : RootSpec → List String
  | install s => (s.picker.map (·.args)).getD []
  | simulator _ => []

/-- Every reference in a child of a root resolves among the children of the same build, for any
    spec of either kind, with defaults or without, and any capabilities: the role, the accounts,
    the volumes and the services are earlier children, and so is the grant of a route; a gateway
    forwards to a service that may come later. -/
theorem RootSpec.references_resolve (root : Root) (caps : Capabilities) (s : RootSpec)
    {earlier later : List Child} {c : Child}
    (place : s.children root caps = earlier ++ c :: later) :
    c.Resolves s.pickerArgs (s.children root caps) earlier := by
  have hall : Child.AllResolve s.pickerArgs (s.children root caps) [] (s.children root caps) := by
    cases s with
    | install s => exact s.children_resolve root caps
    | simulator s => exact s.children_resolve root caps
  generalize s.children root caps = all at hall place
  subst place
  exact hall.resolves

/-- A SchedulerInstall that has everything, with its simulators in another namespace; its picker is
    given one more argument. -/
def routedInstall : RootSpec := (RootSpec.install
  { simulatorNamespace := "sims"
    picker := some { enabled := true, args := ["--tracing-sampler=always"] }
    gateway := some { enabled := true }
    routing := some { enabled := true }
    balancing := some { enabled := true } }).withDefaults "pool" "default"

/-- The children of its root. -/
def routedChildren : List Child :=
  routedInstall.children ⟨.schedulerInstall, "pool", "default", "u-1"⟩ {}

/-- The route refers to the grant and the service before it. -/
theorem references_resolve_routedInstall : ∃ earlier c later,
    routedChildren = earlier ++ c :: later ∧
    c.body.kind = .httpRoute ∧ (earlier.map fun d => d.body.kind) =
      [.serviceAccount, .role, .roleBinding, .configMap, .deployment, .service, .gateway, .service,
        .referenceGrant] ∧
    c.Resolves ["--tracing-sampler=always"] routedChildren earlier := by
  have place : routedChildren
      = routedChildren.take 9 ++ routedChildren[9] :: routedChildren.drop 10 := rfl
  exact ⟨_, _, _, place, by decide, by decide,
    RootSpec.references_resolve _ {} routedInstall place⟩

end Converge
