/-
  Converge.Proofs.Children.Selection — whose pods a selector matches.

  A deployment runs the pods that its selector matches, and a service sends requests to those that
  its own matches, so that labels have to tell the pods of all deployments apart.  The pods of a
  root carry its name.  Among the pods of one root, those of pickers and gateways name their
  application and no role, and those of workloads name their role and no application: no deployment
  asks for fewer labels than another one gives.

  Main statement: `RootSpec.selection_apart` — deployments select their own pods and no others,
  within a build and across roots, and services of simulators lead to one deployment each.
-/
import Converge.Proofs.Children.Tracked

namespace Converge

/-! ## §1. Selectors and badges -/

/-- Every pair of the selector is among the labels. -/
def Selector.Matches (selector labels : Table String String) : Prop :=
  ∀ p ∈ selector, Table.get? labels p.1 = some p.2

instance (selector labels : Table String String) : Decidable (Selector.Matches selector labels) :=
  inferInstanceAs (Decidable (∀ p ∈ selector, Table.get? labels p.1 = some p.2))

theorem Selector.Matches.get? {selector labels : Table String String}
    (h : Selector.Matches selector labels) {k v : String} (hv : Table.get? selector k = some v) :
    Table.get? labels k = some v :=
  h (k, v) (Table.mem_of_get? hv)

theorem Selector.matches_self {labels : Table String String} (once : Table.Ascending labels) :
    Selector.Matches labels labels :=
  fun _ hp => Table.get?_of_mem once.nodup hp

namespace Deployment

/-- What tells the pods of one root apart: their application and their role. -/
def badge (d : Deployment) : Option String × Option String :=
  (Table.get? d.podLabels "app", Table.get? d.podLabels roleLabel)

/-- The selector matches the pods of the other deployment. -/
def Selects (d e : Deployment) : Prop := Selector.Matches d.selector e.podLabels

instance (d e : Deployment) : Decidable (d.Selects e) :=
  inferInstanceAs (Decidable (Selector.Matches d.selector e.podLabels))

/-- The deployment selects by all the labels of its pods: they name the root, and either an
    application or a role. -/
structure Told (root : Root) (d : Deployment) : Prop where
  own : d.selector = d.podLabels
  ordered : Table.Ascending d.podLabels
  root : Table.get? d.podLabels nameLabel = some root.name
  one : (∃ app, d.badge = (some app, none)) ∨
    ∃ role, d.badge = (none, some role)

variable {root other : Root} {d e : Deployment}

theorem Told.selects_self (h : d.Told root) : d.Selects d := by
  unfold Selects
  rw [h.own]
  exact Selector.matches_self h.ordered

/-- Pods that are selected carry the name of the root, and the one badge. -/
theorem Told.of_selects (hd : d.Told root) (he : e.Told other) (h : d.Selects e) :
    root.name = other.name ∧ d.badge = e.badge := by
  unfold Selects at h
  rw [hd.own] at h
  have hname : root.name = other.name :=
    Option.some.inj ((h.get? hd.root).symm.trans he.root)
  refine ⟨hname, ?_⟩
  rcases hd.one with ⟨app, happ⟩ | ⟨role, hrole⟩
  · have hasked : (e.badge).1 = some app := h.get? (congrArg Prod.fst happ)
    rcases he.one with ⟨app', happ'⟩ | ⟨role', hrole'⟩
    · rw [happ'] at hasked ⊢
      rw [happ, ← hasked]
    · rw [hrole'] at hasked
      exact absurd hasked nofun
  · have hasked : (e.badge).2 = some role := h.get? (congrArg Prod.snd hrole)
    rcases he.one with ⟨app', happ'⟩ | ⟨role', hrole'⟩
    · rw [happ'] at hasked
      exact absurd hasked nofun
    · rw [hrole'] at hasked ⊢
      rw [hrole, ← hasked]

end Deployment

/-! ## §2. Deployments of one build -/

namespace Child

/-- The deployments are told apart: each of them is of the root, and their badges are among those
    given, in order. -/
structure Told (root : Root) (badges : List (Option String × Option String)) (cs : List Child) :
    Prop where
  each : ∀ e ∈ deployments cs, e.2.Told root
  badges : ((deployments cs).map fun e => e.2.badge).Sublist badges

variable {root other : Root} {badges more : List (Option String × Option String)}
  {cs ds : List Child}

theorem deployments_append (cs ds : List Child) :
    deployments (cs ++ ds) = deployments cs ++ deployments ds := List.filterMap_append

theorem mem_deployments_of {c : Child} {d : Deployment} (hc : c ∈ cs)
    (hbody : c.body = .deployment d) : (c.key, d) ∈ deployments cs := by
  refine List.mem_filterMap.mpr ⟨c, hc, ?_⟩
  unfold deployment?
  rw [hbody]

theorem deployments_of_kind (h : ∀ c ∈ cs, c.body.kind ≠ .deployment) : deployments cs = [] := by
  refine List.eq_nil_iff_forall_not_mem.mpr fun e he => ?_
  obtain ⟨c, hc, _, hbody⟩ := mem_deployments he
  exact h c hc (congrArg Body.kind hbody)

/-- Children that are no deployments. -/
theorem Told.of_kind (h : ∀ c ∈ cs, c.body.kind ≠ .deployment) : Told root [] cs := by
  refine ⟨?_, ?_⟩ <;> rw [deployments_of_kind h]
  · exact List.forall_mem_nil _
  · exact List.Sublist.refl _

/-- Children that have one deployment. -/
theorem Told.single {e : Key × Deployment} (h : deployments cs = [e]) (told : e.2.Told root) :
    Told root [e.2.badge] cs := by
  refine ⟨?_, ?_⟩ <;> rw [h]
  · exact List.forall_mem_singleton.mpr told
  · exact List.Sublist.refl _

theorem Told.append (hc : Told root badges cs) (hd : Told root more ds) :
    Told root (badges ++ more) (cs ++ ds) := by
  refine ⟨?_, ?_⟩ <;> rw [deployments_append]
  · exact List.forall_mem_append.mpr ⟨hc.each, hd.each⟩
  · rw [List.map_append]
    exact hc.badges.append hd.badges

theorem Told.mono (h : Told root badges cs) (sub : badges.Sublist more) : Told root more cs :=
  ⟨h.each, h.badges.trans sub⟩

/-- Where no badge comes twice, a deployment selects itself and none of the others. -/
theorem Told.selects_iff (h : Told root badges cs) (once : badges.Nodup) {i j : Nat}
    {d e : Key × Deployment} (hd : (deployments cs)[i]? = some d)
    (he : (deployments cs)[j]? = some e) : d.2.Selects e.2 ↔ i = j := by
  have hdtold := h.each d (List.mem_of_getElem? hd)
  have hetold := h.each e (List.mem_of_getElem? he)
  constructor
  · intro selects
    obtain ⟨hi, _⟩ := List.getElem?_eq_some_iff.mp hd
    refine (List.getElem?_inj (by rwa [List.length_map]) (once.sublist h.badges)).mp ?_
    rw [List.getElem?_map, List.getElem?_map, hd, he]
    exact congrArg some (hdtold.of_selects hetold selects).2
  · rintro rfl
    obtain rfl := Option.some.inj (hd.symm.trans he)
    exact hdtold.selects_self

/-- Deployments of roots with different names do not select each other. -/
theorem Told.not_selects (hc : Told root badges cs) (hd : Told other more ds)
    (names : root.name ≠ other.name) {d e : Key × Deployment} (hmem : d ∈ deployments cs)
    (hmem' : e ∈ deployments ds) : ¬ d.2.Selects e.2 :=
  fun selects => names ((hc.each d hmem).of_selects (hd.each e hmem') selects).1

end Child

/-! ## §3. Services in front of deployments -/

/-- The service selects by the labels of a deployment among the children, and every port leads to
    one of its containers. -/
def Child.Fronted (cs : List Child) (s : Service) : Prop :=
  ∃ c ∈ cs, ∃ d, c.body = .deployment d ∧ s.selector = d.selector ∧
    ∀ p ∈ s.ports, ∃ k ∈ d.containers, ∃ q ∈ k.ports, q.port = p.target

theorem Child.Fronted.mono {cs more : List Child} {s : Service} (h : Fronted cs s)
    (sub : cs ⊆ more) : Fronted more s := by
  obtain ⟨c, hc, hfronted⟩ := h
  exact ⟨c, sub hc, hfronted⟩

/-- The service selects the pods of exactly one of the deployments, and every port leads to one of
    its containers. -/
def Service.LeadsToOne (s : Service) (ds : List (Key × Deployment)) : Prop :=
  ∃ (i : Nat) (e : Key × Deployment), ds[i]? = some e ∧
    (∀ (j : Nat) (f : Key × Deployment), ds[j]? = some f →
      (Selector.Matches s.selector f.2.podLabels ↔ j = i)) ∧
    ∀ p ∈ s.ports, ∃ k ∈ e.2.containers, ∃ q ∈ k.ports, q.port = p.target

/-- Where deployments are told apart, a service in front of one selects no other. -/
theorem Child.Told.leadsToOne {root : Root} {badges : List (Option String × Option String)}
    {cs : List Child} (h : Told root badges cs) (once : badges.Nodup) {s : Service}
    (front : Fronted cs s) : s.LeadsToOne (deployments cs) := by
  obtain ⟨c, hc, d, hbody, hselector, hports⟩ := front
  obtain ⟨i, hi⟩ := List.getElem?_of_mem (mem_deployments_of hc hbody)
  refine ⟨i, (c.key, d), hi, fun j f hj => ?_, hports⟩
  rw [hselector]
  exact (h.selects_iff once hi hj).trans eq_comm

/-! ## §4. Pickers -/

namespace PickerPlan

theorem labels_app (p : PickerPlan) : Table.get? p.labels "app" = some p.name := by
  simp [labels, Table.ofEntries, Table.insertAll, nameLabel, componentLabel]

theorem labels_role (p : PickerPlan) : Table.get? p.labels roleLabel = none := by
  simp [labels, Table.ofEntries, Table.insertAll, nameLabel, componentLabel, roleLabel]

theorem labels_name (p : PickerPlan) : Table.get? p.labels nameLabel = some p.root := by
  simp [labels, Table.ofEntries, Table.insertAll, nameLabel, componentLabel]

theorem badge_deployment (p : PickerPlan) : p.deployment.badge = (some p.name, none) :=
  Prod.ext p.labels_app p.labels_role

theorem deployment_told (p : PickerPlan) {root : Root} (name : p.root = root.name) :
    p.deployment.Told root where
  own := rfl
  ordered := Table.ascending_ofEntries _
  root := p.labels_name.trans (congrArg some name)
  one := .inl ⟨_, p.badge_deployment⟩

theorem children_told (p : PickerPlan) {root : Root} (name : p.root = root.name) :
    Child.Told root [(some p.name, none)] (p.children root) := by
  rw [← p.badge_deployment]
  exact Child.Told.single (e := (⟨.deployment, p.ns, p.name⟩, p.deployment)) rfl
    (p.deployment_told name)

theorem children_fronted {p : PickerPlan} {root : Root} {c : Child} (hc : c ∈ p.children root)
    {s : Service} (hbody : c.body = .service s) : Child.Fronted (p.children root) s := by
  rw [PickerPlan.eq_serviceChild _ hc (congrArg Body.kind hbody)] at hbody
  obtain rfl := Body.service.inj hbody
  refine ⟨_, List.mem_of_getElem? (i := 4) rfl, p.deployment, rfl, rfl, ?_⟩
  intro port hport
  rw [List.mem_singleton.mp hport]
  exact ⟨p.container, List.mem_cons_self, ⟨"grpc", grpcPort⟩, List.mem_cons_self, rfl⟩

end PickerPlan

/-! ## §5. Children of a SchedulerInstall -/

/-- The picker is the one deployment. -/
theorem Install.Spec.children_told (root : Root) (caps : Capabilities) (s : Spec) :
    ∃ badges, badges.Nodup ∧ Child.Told root badges (s.children root caps) := by
  have hpicker : ∃ badges, badges.Nodup ∧ Child.Told root badges (s.pickerChildren root) := by
    rw [s.pickerChildren_eq]
    refine Child.ofBlock_cases
      (motive := fun cs => ∃ badges, badges.Nodup ∧ Child.Told root badges cs) ?off ?on
    case off => exact ⟨[], List.nodup_nil, .of_kind (List.forall_mem_nil _)⟩
    case on => exact fun _ _ _ => ⟨_, List.nodup_singleton _, PickerPlan.children_told _ rfl⟩
  have hnone {cs : List Child} {kinds : List Kind}
      (h : (cs.map fun c => c.body.kind).Sublist kinds) (free : Kind.deployment ∉ kinds) :
      Child.Told root [] cs := by
    refine .of_kind fun c hc kind => ?_
    exact Child.not_mem_of_kinds h (kind ▸ free) hc
  obtain ⟨badges, once, htold⟩ := hpicker
  refine ⟨badges, once, ?_⟩
  have hproxy : Child.Told root [] [s.proxyChild root] :=
    .of_kind (List.forall_mem_singleton.mpr nofun)
  have hall := ((((htold.append (hnone (s.gatewayChildren_kinds root caps) (by decide))).append
    hproxy).append (hnone (s.routingChildren_kinds root caps) (by decide))).append
    (hnone (s.policyChildren_kinds root caps) (by decide)))
  simp only [List.append_nil] at hall
  exact hall

/-! ## §6. Children of a SimulatorDeployment -/

namespace Simulator

theorem GatewayPlan.labels_role (p : GatewayPlan) (root : Root) :
    Table.get? (p.labels root) roleLabel = none := by
  obtain ⟨name, flavor, config⟩ := p
  cases flavor <;>
    simp [labels, Table.ofEntries, Table.insertAll, nameLabel, componentLabel, roleLabel]

theorem GatewayPlan.labels_name (p : GatewayPlan) (root : Root) :
    Table.get? (p.labels root) nameLabel = some root.name := by
  obtain ⟨name, flavor, config⟩ := p
  cases flavor <;>
    simp [labels, Table.ofEntries, Table.insertAll, nameLabel, componentLabel]

theorem GatewayPlan.badge_deployment (p : GatewayPlan) (root : Root) :
    (p.deployment root).badge = (some p.name, none) :=
  Prod.ext (p.labels_app root) (p.labels_role root)

theorem GatewayPlan.children_told (p : GatewayPlan) (root : Root) (backend : Endpoint) :
    Child.Told root [(some p.name, none)] (p.children root backend) := by
  have hdeployments : Child.deployments (p.children root backend)
      = [(⟨.deployment, root.ns, p.name⟩, p.deployment root)] := by
    obtain ⟨name, flavor, config⟩ := p
    cases flavor <;> rfl
  rw [← p.badge_deployment root]
  refine Child.Told.single hdeployments ⟨rfl, p.labels_ascending root, p.labels_name root, ?_⟩
  exact .inl ⟨_, p.badge_deployment root⟩

theorem GatewayPlan.children_fronted {p : GatewayPlan} {root : Root} {backend : Endpoint}
    {c : Child} (hc : c ∈ p.children root backend) {s : Service} (hbody : c.body = .service s) :
    Child.Fronted (p.children root backend) s := by
  rw [GatewayPlan.eq_serviceChild _ hc (congrArg Body.kind hbody)] at hbody
  obtain rfl := Body.service.inj hbody
  refine ⟨_, List.mem_append_right _ List.mem_cons_self, p.deployment root, rfl, rfl, ?_⟩
  intro port hport
  rw [List.mem_singleton.mp hport]
  obtain ⟨name, flavor, config⟩ := p
  refine ⟨_, List.mem_cons_self, ?_⟩
  cases flavor with
  | standard => exact ⟨⟨"listener-80", envoyListenerPort⟩, List.mem_cons_self, rfl⟩
  | istio => exact ⟨⟨"http", istioProxyPort⟩, List.mem_cons_self, rfl⟩

theorem Workload.labels_role (w : Workload) (root : Root) :
    Table.get? (w.labels root) roleLabel = some w.stage := by
  simp [labels, Table.ofEntries, Table.insertAll, nameLabel, roleLabel, servingLabel]

theorem Workload.labels_name (w : Workload) (root : Root) :
    Table.get? (w.labels root) nameLabel = some root.name := by
  simp [labels, Table.ofEntries, Table.insertAll, nameLabel, roleLabel, servingLabel]

theorem Workload.badge_deployment (w : Workload) (root : Root) {d : Deployment}
    (labels : d.podLabels = w.labels root) : d.badge = (none, some w.stage) := by
  unfold Deployment.badge
  rw [labels, w.labels_app root, w.labels_role root]

theorem Workload.children_told (w : Workload) (root : Root) :
    Child.Told root [(none, some w.stage)] (w.children root) := by
  have hbadge := w.badge_deployment root (d :=
    { replicas := w.replicas, selector := w.labels root, podLabels := w.labels root,
      containers := [w.container] }) rfl
  rw [← hbadge]
  exact Child.Told.single (e := ⟨⟨.deployment, root.ns, w.deployment⟩, _⟩) rfl
    ⟨rfl, Table.ascending_ofEntries _, w.labels_name root, .inr ⟨_, hbadge⟩⟩

theorem Workload.children_fronted {w : Workload} {root : Root} {c : Child}
    (hc : c ∈ w.children root) {s : Service} (hbody : c.body = .service s) :
    Child.Fronted (w.children root) s := by
  simp only [children, List.mem_cons, List.not_mem_nil, or_false] at hc
  rcases hc with rfl | rfl
  · exact absurd hbody nofun
  · obtain rfl := Body.service.inj hbody
    refine ⟨_, List.mem_cons_self, _, rfl, rfl, fun port hport => ?_⟩
    rw [List.mem_singleton.mp hport]
    exact ⟨w.container, List.mem_cons_self, _, List.mem_cons_self, rfl⟩

/-- The badges of the picker, the gateways and the stages. -/
def badges (root : Root) : List (Option String × Option String) :=
  [(some (Naming.simPicker root.name), none), (some (Naming.simGateway root.name), none),
    (some (Naming.simIstioGateway root.name), none), (none, some prefillStage),
    (none, some decodeStage)]

theorem badges_nodup (root : Root) : (badges root).Nodup := by
  have happ {a b : String} (h : a ≠ b) :
      ((some (root.name ++ a), none) : Option String × Option String)
        ≠ (some (root.name ++ b), none) := by
    intro same
    exact h ((String.append_right_inj root.name).mp (Option.some.inj (congrArg Prod.fst same)))
  simp only [badges, List.nodup_cons, List.mem_cons, List.not_mem_nil, or_false, not_or]
  refine ⟨⟨happ (by decide), happ (by decide), nofun, nofun⟩, ⟨happ (by decide), nofun, nofun⟩,
    ⟨nofun, nofun⟩, by decide, not_false, List.nodup_nil⟩

theorem Spec.pickerChildren_told (root : Root) (s : Spec) :
    Child.Told root [(some (Naming.simPicker root.name), none)] (s.pickerChildren root) := by
  rw [s.pickerChildren_eq]
  refine Child.ofBlock_cases (motive := Child.Told root _) ?off ?on
  case off => exact (Child.Told.of_kind (List.forall_mem_nil _)).mono (List.nil_sublist _)
  case on => exact fun p _ _ => PickerPlan.children_told (p.plan root) rfl

/-- Children of at most one gateway or workload. -/
theorem told_of_optional {root : Root} {α : Type} {f : α → List Child}
    {b : Option String × Option String} {o : Option α}
    (h : ∀ a, o = some a → Child.Told root [b] (f a)) :
    Child.Told root [b] (o.toList.flatMap f) := by
  cases o with
  | none => exact (Child.Told.of_kind (List.forall_mem_nil _)).mono (List.nil_sublist _)
  | some a =>
    rw [Option.toList_some, List.flatMap_singleton]
    exact h a rfl

theorem Spec.gatewayChildren_told (root : Root) (s : Spec) :
    Child.Told root [(some (Naming.simGateway root.name), none),
      (some (Naming.simIstioGateway root.name), none)] (s.gatewayChildren root) := by
  unfold gatewayChildren gatewayPlans
  split
  · exact (Child.Told.of_kind (List.forall_mem_nil _)).mono (List.nil_sublist _)
  · rw [List.flatMap_append]
    refine (told_of_optional fun p hp => ?standard).append (told_of_optional fun p hp => ?istio)
    case standard =>
      obtain ⟨c, _, rfl⟩ := Option.map_eq_some_iff.mp hp
      exact GatewayPlan.children_told ⟨_, .standard, c⟩ root _
    case istio =>
      obtain ⟨c, _, rfl⟩ := Option.map_eq_some_iff.mp hp
      exact GatewayPlan.children_told ⟨_, .istio, c⟩ root _

theorem Spec.workloadChildren_told (root : Root) (s : Spec) :
    Child.Told root [(none, some prefillStage), (none, some decodeStage)]
      (s.workloadChildren root) := by
  unfold workloadChildren workloads
  split
  · rw [List.flatMap_append]
    refine (told_of_optional fun w hw => ?prefill).append (told_of_optional fun w hw => ?decode)
    case prefill =>
      obtain ⟨p, _, rfl⟩ := Option.map_eq_some_iff.mp hw
      exact Workload.children_told (Stage.workload root prefillStage p) root
    case decode =>
      obtain ⟨d, _, rfl⟩ := Option.map_eq_some_iff.mp hw
      exact Workload.children_told (Stage.workload root decodeStage d) root
  · rw [List.flatMap_singleton]
    exact (Workload.children_told _ root).mono (List.sublist_cons_self _ _)

theorem Spec.children_told (root : Root) (caps : Capabilities) (s : Spec) :
    Child.Told root (badges root) (s.children root caps) := by
  have hpolicy : Child.Told root [] (s.policyChildren root caps) :=
    .of_kind fun c hc kind => absurd (kind.symm.trans (Spec.policyChildren_kind _ hc)) nofun
  exact (((s.pickerChildren_told root).append (s.gatewayChildren_told root)).append
    (s.workloadChildren_told root)).append hpolicy

/-- Every service stands in front of a deployment of the same build. -/
theorem Spec.children_fronted {root : Root} {caps : Capabilities} {s : Spec} {c : Child}
    (hc : c ∈ s.children root caps) {service : Service} (hbody : c.body = .service service) :
    Child.Fronted (s.children root caps) service := by
  unfold children at hc ⊢
  simp only [List.mem_append] at hc
  rcases hc with ((hc | hc) | hc) | hc
  · rw [s.pickerChildren_eq] at hc
    obtain ⟨p, hp, on, hc⟩ := Child.mem_ofBlock.mp hc
    refine (PickerPlan.children_fronted hc hbody).mono ?_
    rw [s.pickerChildren_eq, Child.ofBlock_on hp on, List.append_assoc, List.append_assoc]
    exact List.subset_append_left _ _
  · obtain ⟨plan, hplan, hc⟩ := List.mem_flatMap.mp hc
    refine (GatewayPlan.children_fronted hc hbody).mono fun d hd => ?_
    exact List.mem_append_left _ (List.mem_append_left _ (List.mem_append_right _
      (List.mem_flatMap.mpr ⟨plan, hplan, hd⟩)))
  · obtain ⟨w, hw, hc⟩ := List.mem_flatMap.mp hc
    refine (Workload.children_fronted hc hbody).mono fun d hd => ?_
    exact List.mem_append_left _ (List.mem_append_right _ (List.mem_flatMap.mpr ⟨w, hw, hd⟩))
  · exact absurd ((congrArg Body.kind hbody).symm.trans (Spec.policyChildren_kind _ hc)) nofun

end Simulator

/-! ## §7. Children of either -/

namespace RootSpec

theorem children_told (root : Root) (caps : Capabilities) (s : RootSpec) :
    ∃ badges, badges.Nodup ∧ Child.Told root badges (s.children root caps) := by
  cases s with
  | install s => exact s.children_told root caps
  | simulator s => exact ⟨_, Simulator.badges_nodup root, s.children_told root caps⟩

/-- Selection does not cross, whatever names a spec gives.  A deployment of a build selects its own
    pods and those of no other one; deployments of roots with different names, of one kind or of
    two, do not select each other's pods; and a service of a SimulatorDeployment selects the pods
    of exactly one deployment of its build, which has the ports it leads to. -/
theorem selection_apart (root : Root) (caps : Capabilities) (s : RootSpec) :
    (∀ (i j : Nat) (c d : Key × Deployment),
      (Child.deployments (s.children root caps))[i]? = some c →
      (Child.deployments (s.children root caps))[j]? = some d → (c.2.Selects d.2 ↔ i = j)) ∧
    (∀ (other : Root) (otherCaps : Capabilities) (t : RootSpec), root.name ≠ other.name →
      ∀ c ∈ Child.deployments (s.children root caps),
        ∀ d ∈ Child.deployments (t.children other otherCaps),
          ¬ c.2.Selects d.2 ∧ ¬ d.2.Selects c.2) ∧
    ∀ t, s = .simulator t → ∀ c ∈ s.children root caps, ∀ service, c.body = .service service →
      service.LeadsToOne (Child.deployments (s.children root caps)) := by
  obtain ⟨badges, once, told⟩ := s.children_told root caps
  refine ⟨?within, ?across, ?services⟩
  case within => exact fun _ _ _ _ hc hd => told.selects_iff once hc hd
  case across =>
    intro other otherCaps t names c hc d hd
    obtain ⟨_, _, others⟩ := t.children_told other otherCaps
    exact ⟨told.not_selects others names hc hd, others.not_selects told names.symm hd hc⟩
  case services =>
    rintro t rfl c hc service hbody
    exact told.leadsToOne once (Simulator.Spec.children_fronted hc hbody)

/-- A SimulatorDeployment that has everything a spec can ask for. -/
def stagedPool : RootSpec := .simulator
  { picker := some { enabled := true }
    gateways := some { enabled := true, standard := some { enabled := true },
                       istio := some { enabled := true } }
    prefill := some { enabled := true }
    decode := some { enabled := true } }

/-- Its root. -/
def stagedRoot : Root := ⟨.simulatorDeployment, "pool", "default", "u-1"⟩

/-- A SchedulerInstall whose picker gets the name of that of the pool. -/
def pickerInstall : RootSpec := (RootSpec.install
  { schedulerNamespace := "default", simulatorNamespace := "default"
    picker := some { enabled := true } }).withDefaults "pool-sim" "default"

/-- The root of the SchedulerInstall. -/
def pickerRoot : Root := ⟨.schedulerInstall, "pool-sim", "default", "u-2"⟩

/-- The first deployments of the two builds have one key, and do not select each other's pods; the
    gateways of the pool do not either, and its first service leads to the picker. -/
theorem selection_apart_pools :
    let pool := Child.deployments (stagedPool.children stagedRoot {})
    let other := Child.deployments (pickerInstall.children pickerRoot {})
    ∃ c d standard istio,
      pool[0]? = some c ∧ other[0]? = some d ∧ pool[1]? = some standard ∧ pool[2]? = some istio ∧
      pool.length = 5 ∧ c.1 = d.1 ∧ stagedRoot.name ≠ pickerRoot.name ∧
      (¬ c.2.Selects d.2 ∧ ¬ d.2.Selects c.2) ∧ ¬ standard.2.Selects istio.2 ∧
      ∃ service : Service, service.LeadsToOne pool := by
  have hpool := selection_apart stagedRoot {} stagedPool
  refine ⟨_, _, _, _, rfl, rfl, rfl, rfl, rfl, rfl, by decide, ?across, ?within, ?service⟩
  case across =>
    exact hpool.2.1 pickerRoot {} pickerInstall (by decide) _ List.mem_cons_self _
      List.mem_cons_self
  case within => exact mt (hpool.1 1 2 _ _ rfl rfl).mp (by decide)
  case service =>
    exact ⟨_, hpool.2.2 _ rfl _ (List.mem_of_getElem? (i := 5) rfl) _ rfl⟩

end RootSpec

end Converge
