/-
  Converge.Proofs.Children.Proper — what holds of every child a spec asks for.

  Users choose texts, numbers, resources and selectors; which lists a body has, how their
  entries are named and which labels there are is up to the builders.

  Main statements:
    * `RootSpec.children_proper` — the children of any spec are well-named and labelled in order.
    * `RootSpec.amend?_eq_none_iff_inLine` — a child leaves exactly the objects in line as
      they are, and brings every other object in line.
-/
import Converge.Proofs.Body.WellNamed
import Converge.Proofs.Children.Builders

namespace Converge

/-! ## §1. Proper children -/

/-- The body is well-named and the labels ascend. -/
structure Child.Proper (c : Child) : Prop where
  body : c.body.WellNamed
  labels : Table.Ascending c.labels

/-- Labels of a link are added in order. -/
theorem Child.Proper.managed {c : Child} (h : c.Proper) : Table.Ascending c.managedLabels := by
  unfold Child.managedLabels
  cases c.link with
  | owned owner => exact h.labels
  | labelled link => exact h.labels.insertAll link

theorem Child.proper_make {root : Root} {ns name : String} {labels : Table String String}
    {body : Body} (hb : body.WellNamed) (hl : Table.Ascending labels) :
    (Child.make root ns name labels body).Proper :=
  ⟨hb, hl⟩

theorem ascending_single (k v : String) : Table.Ascending [(k, v)] := List.pairwise_singleton _ _

theorem Child.trafficPolicy_proper (root : Root) (ns service : String) (b : Balancing) :
    (Child.trafficPolicy root ns service b).Proper :=
  Child.proper_make trivial (ascending_single _ _)

/-! ## §2. Pickers -/

theorem PickerPlan.container_wellNamed (p : PickerPlan) : p.container.WellNamed where
  env := by
    show ["NAMESPACE", "POD_NAME"].Nodup
    decide
  ports := by
    show ["grpc", "grpc-health", "metrics"].Nodup
    decide
  mounts := List.pairwise_singleton _ _

theorem PickerPlan.deployment_wellNamed (p : PickerPlan) : p.deployment.WellNamed where
  some := by simp [deployment]
  containers := List.pairwise_singleton _ _
  each := by
    intro c hc
    rw [List.mem_singleton.mp hc]
    exact p.container_wellNamed
  volumes := List.pairwise_singleton _ _
  selector := Table.ascending_ofEntries _
  labels := Table.ascending_ofEntries _
  annotations := Table.ascending_nil

theorem PickerPlan.children_proper (p : PickerPlan) (root : Root) :
    ∀ c ∈ p.children root, c.Proper := by
  have hl : Table.Ascending p.labels := Table.ascending_ofEntries _
  refine forall_children ?account ?role ?binding ?config ?workload ?service
  case account => exact Child.proper_make trivial hl
  case role => exact Child.proper_make trivial hl
  case binding => exact Child.proper_make trivial hl
  case config => exact Child.proper_make trivial hl
  case workload => exact ⟨p.deployment_wellNamed, hl⟩
  case service => exact Child.proper_make (List.pairwise_singleton _ _) hl

/-! ## §3. Children of a SchedulerInstall -/

namespace Install

theorem rootLabels_ascending (root : Root) : Table.Ascending (rootLabels root) :=
  ascending_single _ _

theorem Spec.routeChild?_proper (root : Root) (s : Spec) {c : Child}
    (hc : s.routeChild? root = some c) : c.Proper := by
  unfold routeChild? at hc
  obtain ⟨r, _, rfl⟩ := Option.map_eq_some_iff.mp hc
  exact Child.proper_make ⟨by simp, List.pairwise_singleton _ _, by simp⟩
    (rootLabels_ascending root)

theorem Spec.children_proper (root : Root) (caps : Capabilities) (s : Spec) :
    ∀ c ∈ s.children root caps, c.Proper := by
  have hl := rootLabels_ascending root
  refine Spec.forall_children ?picker ?gateway ?proxy ?grant ?route ?policy
  case picker => exact fun _ => PickerPlan.children_proper _ root
  case gateway => exact fun _ _ => Child.proper_make (List.pairwise_singleton _ _) hl
  case proxy => exact Child.proper_make (List.pairwise_singleton _ _) hl
  case grant => exact fun _ => Child.proper_make trivial hl
  case route => exact fun _ _ => s.routeChild?_proper root
  case policy => exact fun _ => Child.trafficPolicy_proper _ _ _

end Install

/-! ## §4. Children of a SimulatorDeployment -/

namespace Simulator

theorem GatewayInstance.container_wellNamed (g : GatewayInstance) (f : Flavor) :
    (g.container f).WellNamed := by
  cases f with
  | istio =>
    refine ⟨?_, List.pairwise_singleton _ _, List.Pairwise.nil⟩
    show ["POD_NAME", "POD_NAMESPACE"].Nodup
    decide
  | standard =>
    refine ⟨?_, ?_, List.pairwise_singleton _ _⟩
    · show ["POD_NAME", "POD_NAMESPACE", "ENVOY_UID"].Nodup
      decide
    · show ["listener-80", "http-monitoring"].Nodup
      decide

theorem GatewayPlan.labels_ascending (p : GatewayPlan) (root : Root) :
    Table.Ascending (p.labels root) := by
  have hbase : Table.Ascending (Table.ofEntries
      [("app", p.name), (nameLabel, root.name), (componentLabel, "gateway")]) :=
    Table.ascending_ofEntries _
  unfold labels
  cases p.flavor with
  | standard => exact hbase
  | istio => exact hbase.insert _ _

theorem GatewayPlan.deployment_wellNamed (p : GatewayPlan) (root : Root) :
    (p.deployment root).WellNamed where
  some := by simp [deployment]
  containers := List.pairwise_singleton _ _
  each := by
    intro c hc
    rw [List.mem_singleton.mp hc]
    exact p.config.container_wellNamed p.flavor
  volumes := by
    obtain ⟨name, flavor, config⟩ := p
    cases flavor with
    | standard => exact List.pairwise_singleton _ _
    | istio => exact List.Pairwise.nil
  selector := p.labels_ascending root
  labels := p.labels_ascending root
  annotations := by
    obtain ⟨name, flavor, config⟩ := p
    cases flavor with
    | standard => exact Table.ascending_nil
    | istio => exact ascending_single _ _

theorem GatewayPlan.children_proper (p : GatewayPlan) (root : Root) (backend : Endpoint) :
    ∀ c ∈ p.children root backend, c.Proper := by
  have hl := p.labels_ascending root
  refine forall_children ?config ?workload ?service
  case config => exact fun _ => Child.proper_make trivial hl
  case workload => exact ⟨p.deployment_wellNamed root, hl⟩
  case service => exact Child.proper_make (List.pairwise_singleton _ _) hl

theorem Workload.container_wellNamed (w : Workload) : w.container.WellNamed :=
  ⟨List.Pairwise.nil, List.pairwise_singleton _ _, List.Pairwise.nil⟩

theorem Workload.children_proper (w : Workload) (root : Root) :
    ∀ c ∈ w.children root, c.Proper := by
  have hl : Table.Ascending (w.labels root) := Table.ascending_ofEntries _
  refine forall_children ?workload ?service
  case workload =>
    refine ⟨⟨by simp, List.pairwise_singleton _ _, ?_, List.Pairwise.nil, hl, hl,
      Table.ascending_nil⟩, hl⟩
    intro c hc
    rw [List.mem_singleton.mp hc]
    exact w.container_wellNamed
  case service => exact Child.proper_make (List.pairwise_singleton _ _) hl

theorem Spec.children_proper (root : Root) (caps : Capabilities) (s : Spec) :
    ∀ c ∈ s.children root caps, c.Proper := by
  refine Spec.forall_children ?picker ?gateways ?workloads ?policy
  case picker => exact fun _ => PickerPlan.children_proper _ root
  case gateways => exact fun p _ => p.children_proper root _
  case workloads => exact fun w _ => w.children_proper root
  case policy => exact fun _ => Child.trafficPolicy_proper _ _ _

end Simulator

/-! ## §5. Children of either -/

theorem RootSpec.children_proper (root : Root) (caps : Capabilities) (s : RootSpec) :
    ∀ c ∈ s.children root caps, c.Proper := by
  cases s with
  | install s => exact s.children_proper root caps
  | simulator s => exact s.children_proper root caps

/-- Every child of either kind of root leaves exactly the objects in line with it as they are;
    any other object is brought in line, and then left as it is. -/
theorem RootSpec.amend?_eq_none_iff_inLine (root : Root) (caps : Capabilities) (s : RootSpec)
    {c : Child} (hc : c ∈ s.children root caps) (cur : Object) :
    (c.amend? cur = none ↔ c.InLine cur) ∧
      ∀ next, c.amend? cur = some next → c.InLine next ∧ c.amend? next = none := by
  have hproper := s.children_proper root caps c hc
  have hb := hproper.body.regular
  have once := hproper.managed.nodup
  refine ⟨Child.amend?_none hb once cur, ?_⟩
  intro next hnext
  have hline := Child.inLine_amend? hb once hnext
  exact ⟨hline, (Child.amend?_none hb once next).mpr hline⟩

/-- A simulator whose one container claims the same device twice. -/
def repeatedClaims : RootSpec :=
  .simulator { resources := some { claims := some [⟨"gpu", none⟩, ⟨"gpu", some "half"⟩] } }

/-- Its root. -/
def repeatedClaimsRoot : Root := ⟨.simulatorDeployment, "sim", "default", "u-1"⟩

theorem amend?_eq_none_iff_inLine_repeatedClaims :
    ∃ c cur next, c ∈ (repeatedClaims.withDefaults "sim" "default").children repeatedClaimsRoot {} ∧
      c.amend? cur = some next ∧ c.InLine next ∧ c.amend? next = none := by
  let s := repeatedClaims.withDefaults "sim" "default"
  let c := (s.children repeatedClaimsRoot {}).headD default
  have hc : c ∈ s.children repeatedClaimsRoot {} := List.mem_cons_self
  let cur : Object := ⟨none, {}, .null⟩
  cases hnext : c.amend? cur with
  | none => exact absurd hnext (by decide)
  | some next =>
    obtain ⟨hline, hstays⟩ :=
      (RootSpec.amend?_eq_none_iff_inLine repeatedClaimsRoot {} s hc cur).2 next hnext
    exact ⟨c, cur, next, hc, hnext, hline, hstays⟩

end Converge
