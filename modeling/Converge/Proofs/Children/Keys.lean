/-
  Converge.Proofs.Children.Keys — when the children of one build have keys of their own.

  Names a spec gives are taken as they are.  Every build has at most one child, a service, whose
  name can meet that of another: the proxy of a SchedulerInstall, and the service of a
  SimulatorDeployment without stages.  All others differ in their kinds, or are named after the
  root in forms that do not clash.  Services that meet are told to be different things.

  Main statement: `RootSpec.keys_distinct_iff` — the keys of a build are pairwise distinct exactly
  if that service is named apart, and otherwise two children of one key have different bodies.
-/
import Converge.Proofs.Amend.Applied
import Converge.Proofs.Children.Names

namespace Converge

/-! ## §1. One child among others -/

/-- Children of one key are to be the same. -/
def Child.Agree (cs : List Child) : Prop :=
  ∀ b ∈ cs, ∀ c ∈ cs, b.key = c.key → b.body.toJson = c.body.toJson

theorem Child.agree_of_nodup {cs : List Child} (once : (cs.map Child.key).Nodup) :
    Child.Agree cs := by
  intro b hb c hc key
  rw [Child.eq_of_key once hb hc key]

section Insert

variable {before after : List Child} {c : Child}

theorem Child.nodup_insert_iff (once : ((before ++ after).map Child.key).Nodup) :
    ((before ++ c :: after).map Child.key).Nodup ↔ ∀ d ∈ before ++ after, d.key ≠ c.key := by
  have hperm : ((before ++ c :: after).map Child.key).Perm ((c :: (before ++ after)).map Child.key) :=
    List.perm_middle.map _
  rw [hperm.nodup_iff, List.map_cons, List.nodup_cons]
  constructor
  · rintro ⟨fresh, _⟩ d hd key
    exact fresh (List.mem_map.mpr ⟨d, hd, key⟩)
  · intro apart
    refine ⟨fun h => ?_, once⟩
    obtain ⟨d, hd, key⟩ := List.mem_map.mp h
    exact apart d hd key

/-- Where a child of the same key is to be something else, agreement is as much as distinct
    keys. -/
theorem Child.agree_insert_iff (once : ((before ++ after).map Child.key).Nodup)
    (differ : ∀ d ∈ before ++ after, d.key = c.key → d.body.toJson ≠ c.body.toJson) :
    Child.Agree (before ++ c :: after) ↔ ∀ d ∈ before ++ after, d.key ≠ c.key := by
  constructor
  · intro agree d hd key
    have hmem : d ∈ before ++ c :: after := by
      rcases List.mem_append.mp hd with h | h
      · exact List.mem_append_left _ h
      · exact List.mem_append_right _ (List.mem_cons_of_mem _ h)
    have hc : c ∈ before ++ c :: after := List.mem_append_right _ List.mem_cons_self
    exact differ d hd key (agree d hmem c hc key)
  · intro apart
    exact Child.agree_of_nodup ((Child.nodup_insert_iff once).mpr apart)

end Insert

/-! ## §2. Kinds -/

/-- Children of different kinds have different keys. -/
theorem Child.nodup_of_kinds {cs : List Child} {kinds : List Kind} (once : kinds.Nodup)
    (h : (cs.map fun c => c.body.kind).Sublist kinds) : (cs.map Child.key).Nodup := by
  have hkinds := List.pairwise_map.mp (List.Nodup.sublist h once)
  refine List.pairwise_map.mpr (hkinds.imp ?_)
  intro b c apart key
  exact apart (congrArg Key.kind key)

/-- No child is of a kind that none of them has. -/
theorem Child.not_mem_of_kinds {cs : List Child} {kinds : List Kind} {c : Child}
    (h : (cs.map fun c => c.body.kind).Sublist kinds) (kind : c.body.kind ∉ kinds) : c ∉ cs :=
  fun hc => kind (h.subset (List.mem_map_of_mem hc))

theorem Child.kind_of_key {b c : Child} (key : b.key = c.key) : b.body.kind = c.body.kind :=
  congrArg Key.kind key

/-! ## §3. Services -/

/-- What a service is written as tells the names of its ports. -/
theorem Service.portNames_of_toJson {s t : Service}
    (same : (Body.service s).toJson = (Body.service t).toJson) :
    s.ports.map ServicePort.name = t.ports.map ServicePort.name := by
  simp only [Body.toJson, specJson, Json.obj.injEq, List.cons.injEq, Prod.mk.injEq,
    Json.arr.injEq, true_and, and_true] at same
  have hnames : (s.ports.map ServicePort.name).map some = (t.ports.map ServicePort.name).map some := by
    rw [← Json.map_nameOf? ServicePort.nameOf?_toJson, same.1,
      Json.map_nameOf? ServicePort.nameOf?_toJson]
  exact List.map_injective_iff.mpr (fun _ _ h => Option.some.inj h) hnames

/-- What a service is written as tells the labels it selects by. -/
theorem Service.selector_of_toJson {s t : Service}
    (same : (Body.service s).toJson = (Body.service t).toJson) : s.selector = t.selector := by
  simp only [Body.toJson, specJson, Json.ofTexts, Json.obj.injEq, List.cons.injEq, Prod.mk.injEq,
    true_and, and_true] at same
  refine List.map_injective_iff.mpr ?_ same.2.1
  intro a b h
  simpa [Prod.ext_iff] using h

theorem PickerPlan.serviceChild_mem (p : PickerPlan) (root : Root) :
    p.serviceChild root ∈ p.children root := by
  simp [children, serviceChild]

theorem PickerPlan.eq_serviceChild {p : PickerPlan} {root : Root} :
    ∀ c ∈ p.children root, c.body.kind = .service → c = p.serviceChild root :=
  forall_children nofun nofun nofun nofun nofun fun _ => rfl

/-- All traffic policies are of one kind. -/
theorem Child.policies_kinds (root : Root) (caps : Capabilities) (ns service : String)
    (balancing : Option Balancing) :
    ((policies root caps ns service balancing).map fun c => c.body.kind).Sublist
      [.destinationRule] :=
  policies_cases (motive := fun cs => (cs.map fun c => c.body.kind).Sublist [.destinationRule])
    (List.nil_sublist _) fun _ _ _ => List.Sublist.refl _

/-- A picker's service is no service with a port for requests. -/
theorem PickerPlan.serviceChild_ne (p : PickerPlan) (root : Root) {type : String}
    {selector : Table String String} {port target : Int32} :
    (p.serviceChild root).body.toJson
      ≠ (Body.service ⟨type, selector, [⟨"http", port, target⟩]⟩).toJson := by
  intro same
  have hnames : ["grpc"] = ["http"] := Service.portNames_of_toJson same
  exact absurd hnames (by decide)

/-! ## §4. Children of a SchedulerInstall -/

namespace Install

/-- In a namespace of both, the picker and the proxy service have different names. -/
def Spec.NamesApart (s : Spec) : Prop :=
  ∀ p, s.picker = some p → p.enabled = true →
    s.schedulerNamespace = s.simulatorNamespace → p.name ≠ s.proxy.name

theorem Spec.pickerChildren_kinds (root : Root) (s : Spec) :
    ((s.pickerChildren root).map fun c => c.body.kind).Sublist
      [.serviceAccount, .role, .roleBinding, .configMap, .deployment, .service] := by
  rw [pickerChildren_eq]
  refine Child.ofBlock_cases (motive := fun cs => (cs.map fun c => c.body.kind).Sublist _) ?off ?on
  case off => exact List.nil_sublist _
  case on => exact fun _ _ _ => List.Sublist.refl _

theorem Spec.gatewayChildren_kinds (root : Root) (caps : Capabilities) (s : Spec) :
    ((s.gatewayChildren root caps).map fun c => c.body.kind).Sublist [.gateway] := by
  rw [gatewayChildren_eq]
  refine Child.ofBlock_cases (motive := fun cs => (cs.map fun c => c.body.kind).Sublist _)
    (List.nil_sublist _) fun _ _ _ => ?_
  unfold Child.gated
  split
  · exact List.Sublist.refl _
  · exact List.nil_sublist _

theorem Spec.routingChildren_kinds (root : Root) (caps : Capabilities) (s : Spec) :
    ((s.routingChildren root caps).map fun c => c.body.kind).Sublist
      [.referenceGrant, .httpRoute] := by
  unfold routingChildren
  split
  · have hroute : ((s.routeChild? root).toList.map fun c => c.body.kind).Sublist
        [Kind.httpRoute] := by
      unfold routeChild?
      cases s.routing with
      | none => exact List.nil_sublist _
      | some r => exact List.Sublist.refl _
    rw [List.map_append]
    split
    · split
      · exact hroute.cons_cons _
      · exact (List.nil_sublist _).cons_cons _
    · split
      · exact hroute.cons _
      · exact List.nil_sublist _
  · exact List.nil_sublist _

theorem Spec.policyChildren_kinds (root : Root) (caps : Capabilities) (s : Spec) :
    ((s.policyChildren root caps).map fun c => c.body.kind).Sublist [.destinationRule] :=
  s.policyChildren_eq root caps ▸ Child.policies_kinds ..

/-- The children apart from the proxy service. -/
def Spec.others (root : Root) (caps : Capabilities) (s : Spec) : List Child :=
  s.pickerChildren root ++ s.gatewayChildren root caps
    ++ (s.routingChildren root caps ++ s.policyChildren root caps)

theorem Spec.others_kinds (root : Root) (caps : Capabilities) (s : Spec) :
    ((s.others root caps).map fun c => c.body.kind).Sublist
      [.serviceAccount, .role, .roleBinding, .configMap, .deployment, .service, .gateway,
        .referenceGrant, .httpRoute, .destinationRule] := by
  unfold others
  simp only [List.map_append]
  exact ((s.pickerChildren_kinds root).append (s.gatewayChildren_kinds root caps)).append
    ((s.routingChildren_kinds root caps).append (s.policyChildren_kinds root caps))

/-- The one other service is that of the picker. -/
theorem Spec.others_service {root : Root} {caps : Capabilities} {s : Spec} {c : Child}
    (hc : c ∈ s.others root caps) (kind : c.body.kind = .service) :
    ∃ p, s.picker = some p ∧ p.enabled = true ∧ c = (p.plan root s).serviceChild root := by
  unfold others at hc
  simp only [List.mem_append] at hc
  rcases hc with (hc | hc) | hc | hc
  · rw [s.pickerChildren_eq] at hc
    obtain ⟨p, hp, on, hc⟩ := Child.mem_ofBlock.mp hc
    exact ⟨p, hp, on, PickerPlan.eq_serviceChild _ hc kind⟩
  · exact absurd hc
      (Child.not_mem_of_kinds (s.gatewayChildren_kinds root caps) (by rw [kind]; decide))
  · exact absurd hc
      (Child.not_mem_of_kinds (s.routingChildren_kinds root caps) (by rw [kind]; decide))
  · exact absurd hc
      (Child.not_mem_of_kinds (s.policyChildren_kinds root caps) (by rw [kind]; decide))

/-- No other child has the key of the proxy service exactly if the two names are apart. -/
theorem Spec.proxy_apart_iff (root : Root) (caps : Capabilities) (s : Spec) :
    (∀ c ∈ s.others root caps, c.key ≠ (s.proxyChild root).key) ↔ s.NamesApart := by
  constructor
  · intro apart p hp on hns hname
    refine apart ((p.plan root s).serviceChild root) ?_ ?_
    · refine List.mem_append_left _ (List.mem_append_left _ ?_)
      rw [s.pickerChildren_eq, Child.ofBlock_on hp on]
      exact PickerPlan.serviceChild_mem _ root
    · show (⟨.service, s.schedulerNamespace, p.name⟩ : Key)
        = ⟨.service, s.simulatorNamespace, s.proxy.name⟩
      rw [hns, hname]
  · intro apart c hc key
    obtain ⟨p, hp, on, rfl⟩ := s.others_service hc (Child.kind_of_key key)
    exact apart p hp on (congrArg Key.ns key) (congrArg Key.name key)

theorem Spec.proxy_differs {root : Root} {caps : Capabilities} {s : Spec} {c : Child}
    (hc : c ∈ s.others root caps) (key : c.key = (s.proxyChild root).key) :
    c.body.toJson ≠ (s.proxyChild root).body.toJson := by
  obtain ⟨p, _, _, rfl⟩ := s.others_service hc (Child.kind_of_key key)
  exact PickerPlan.serviceChild_ne _ root

theorem Spec.others_nodup (root : Root) (caps : Capabilities) (s : Spec) :
    ((s.others root caps).map Child.key).Nodup :=
  Child.nodup_of_kinds (by decide) (s.others_kinds root caps)

/-- The proxy service stands between the gateway and the routing. -/
theorem Spec.children_eq (root : Root) (caps : Capabilities) (s : Spec) :
    s.children root caps = s.pickerChildren root ++ s.gatewayChildren root caps
      ++ s.proxyChild root :: (s.routingChildren root caps ++ s.policyChildren root caps) := by
  unfold children
  simp only [List.append_assoc, List.cons_append, List.nil_append]

theorem Spec.keys_apart_iff (root : Root) (caps : Capabilities) (s : Spec) :
    (((s.children root caps).map Child.key).Nodup ↔ s.NamesApart)
      ∧ (Child.Agree (s.children root caps) ↔ s.NamesApart) := by
  have once := s.others_nodup root caps
  rw [s.children_eq, Child.nodup_insert_iff once,
    Child.agree_insert_iff once fun _ hc key => s.proxy_differs hc key]
  exact ⟨s.proxy_apart_iff root caps, s.proxy_apart_iff root caps⟩

end Install

/-! ## §5. Children of a SimulatorDeployment -/

namespace Simulator

/-- Without stages, the service has a name other than those of the picker and the gateways. -/
def Spec.NamesApart (root : Root) (s : Spec) : Prop :=
  s.staged = false →
    (∀ p, s.picker = some p → p.enabled = true → s.service.name ≠ Naming.simPicker root.name) ∧
      ∀ plan ∈ s.gatewayPlans root, s.service.name ≠ plan.name

theorem GatewayPlan.serviceChild_mem (p : GatewayPlan) (root : Root) (backend : Endpoint) :
    p.serviceChild root ∈ p.children root backend :=
  List.mem_append_right _ (List.mem_cons_of_mem _ List.mem_cons_self)

theorem GatewayPlan.eq_serviceChild {p : GatewayPlan} {root : Root} {backend : Endpoint} :
    ∀ c ∈ p.children root backend, c.body.kind = .service → c = p.serviceChild root :=
  forall_children nofun nofun fun _ => rfl

theorem GatewayPlan.labels_app (p : GatewayPlan) (root : Root) :
    Table.get? (p.labels root) "app" = some p.name := by
  obtain ⟨name, flavor, config⟩ := p
  cases flavor <;>
    simp [labels, Table.ofEntries, Table.insertAll, nameLabel, componentLabel]

theorem Workload.labels_app (w : Workload) (root : Root) :
    Table.get? (w.labels root) "app" = none := by
  simp [labels, Table.ofEntries, Table.insertAll, nameLabel, roleLabel, servingLabel]

/-- Gateways are selected by the name of their application, workloads by their stage. -/
theorem GatewayPlan.serviceChild_ne (p : GatewayPlan) (w : Workload) (root : Root) :
    (p.serviceChild root).body.toJson ≠ (w.serviceChild root).body.toJson := by
  intro same
  have hlabels : p.labels root = w.labels root := Service.selector_of_toJson same
  have happ := p.labels_app root
  rw [hlabels, w.labels_app root] at happ
  exact absurd happ nofun

/-- The children apart from the service of a spec without stages. -/
def Spec.others (root : Root) (caps : Capabilities) (s : Spec) : List Child :=
  s.pickerChildren root ++ s.gatewayChildren root ++ [(s.unstagedWorkload root).deploymentChild root]
    ++ s.policyChildren root caps

theorem Spec.policyChildren_kind {root : Root} {caps : Capabilities} {s : Spec} :
    ∀ c ∈ s.policyChildren root caps, c.body.kind = .destinationRule := by
  rw [policyChildren_eq]
  exact Child.forall_policies fun _ _ _ _ => rfl

theorem Spec.others_nodup (root : Root) (caps : Capabilities) (s : Spec) :
    ((s.others root caps).map Child.key).Nodup := by
  have htitled : Titled (pickerForms ++ (gatewayForms .standard ++ gatewayForms .istio)
      ++ [stageForm .deployment decodeStage]) root.name
      (s.pickerChildren root ++ s.gatewayChildren root
        ++ [(s.unstagedWorkload root).deploymentChild root]) :=
    ((pickerChildren_titled root s).append (gatewayChildren_titled root s)).append
      (Titled.single (stageForm_title _ _ _).symm)
  unfold others
  rw [List.map_append, List.nodup_append]
  refine ⟨htitled.nodup_keys (by decide +kernel), ?policy, ?apart⟩
  case policy =>
    rw [s.policyChildren_eq]
    exact Child.nodup_of_kinds (List.nodup_singleton _) (Child.policies_kinds ..)
  case apart =>
    -- none of the forms is one of a traffic policy
    intro key hkey key' hkey' same
    obtain ⟨c, hc, rfl⟩ := List.mem_map.mp hkey
    obtain ⟨d, hd, rfl⟩ := List.mem_map.mp hkey'
    obtain ⟨f, hf, htitle⟩ := htitled.mem hc
    have hkind : f.kind = .destinationRule := by
      rw [← Spec.policyChildren_kind _ hd, ← Child.kind_of_key same]
      exact congrArg Prod.fst htitle
    have hnone : ∀ f ∈ pickerForms ++ (gatewayForms .standard ++ gatewayForms .istio)
        ++ [stageForm .deployment decodeStage], f.kind ≠ .destinationRule := by
      decide +kernel
    exact hnone f hf hkind

/-- Other services are those of the picker and the gateways. -/
theorem Spec.others_service {root : Root} {caps : Capabilities} {s : Spec} {c : Child}
    (hc : c ∈ s.others root caps) (kind : c.body.kind = .service) :
    (∃ p, s.picker = some p ∧ p.enabled = true ∧ c = (p.plan root).serviceChild root) ∨
      ∃ plan ∈ s.gatewayPlans root, c = plan.serviceChild root := by
  unfold others at hc
  simp only [List.mem_append] at hc
  rcases hc with ((hc | hc) | hc) | hc
  · rw [s.pickerChildren_eq] at hc
    obtain ⟨p, hp, on, hc⟩ := Child.mem_ofBlock.mp hc
    exact .inl ⟨p, hp, on, PickerPlan.eq_serviceChild _ hc kind⟩
  · obtain ⟨plan, hplan, hc⟩ := List.mem_flatMap.mp hc
    exact .inr ⟨plan, hplan, GatewayPlan.eq_serviceChild _ hc kind⟩
  · rw [List.mem_singleton.mp hc] at kind
    exact absurd kind nofun
  · exact absurd (kind.symm.trans (Spec.policyChildren_kind _ hc)) nofun

/-- Without stages, no other child has the key of the service exactly if its name is apart. -/
theorem Spec.service_apart_iff (root : Root) (caps : Capabilities) {s : Spec}
    (unstaged : s.staged = false) :
    (∀ c ∈ s.others root caps, c.key ≠ ((s.unstagedWorkload root).serviceChild root).key)
      ↔ s.NamesApart root := by
  constructor
  · intro apart _
    refine ⟨?picker, ?gateways⟩
    case picker =>
      intro p hp on hname
      refine apart ((p.plan root).serviceChild root) ?_ ?_
      · refine List.mem_append_left _ (List.mem_append_left _ (List.mem_append_left _ ?_))
        rw [s.pickerChildren_eq, Child.ofBlock_on hp on]
        exact PickerPlan.serviceChild_mem _ root
      · show (⟨.service, root.ns, Naming.simPicker root.name⟩ : Key)
          = ⟨.service, root.ns, s.service.name⟩
        rw [hname]
    case gateways =>
      intro plan hplan hname
      refine apart (plan.serviceChild root) ?_ ?_
      · refine List.mem_append_left _ (List.mem_append_left _ (List.mem_append_right _ ?_))
        exact List.mem_flatMap.mpr ⟨plan, hplan, plan.serviceChild_mem root _⟩
      · show (⟨.service, root.ns, plan.name⟩ : Key) = ⟨.service, root.ns, s.service.name⟩
        rw [hname]
  · intro apart c hc key
    obtain ⟨hpicker, hgateways⟩ := apart unstaged
    rcases s.others_service hc (Child.kind_of_key key) with ⟨p, hp, on, rfl⟩ | ⟨plan, hplan, rfl⟩
    · exact hpicker p hp on (congrArg Key.name key).symm
    · exact hgateways plan hplan (congrArg Key.name key).symm

theorem Spec.service_differs {root : Root} {caps : Capabilities} {s : Spec} {c : Child}
    (hc : c ∈ s.others root caps)
    (key : c.key = ((s.unstagedWorkload root).serviceChild root).key) :
    c.body.toJson ≠ ((s.unstagedWorkload root).serviceChild root).body.toJson := by
  rcases s.others_service hc (Child.kind_of_key key) with ⟨p, _, _, rfl⟩ | ⟨plan, _, rfl⟩
  · exact PickerPlan.serviceChild_ne _ root
  · exact plan.serviceChild_ne _ root

/-- With stages, all names are of forms that do not clash. -/
theorem Spec.nodup_of_staged (root : Root) (caps : Capabilities) {s : Spec}
    (staged : s.staged = true) : ((s.children root caps).map Child.key).Nodup := by
  have hname : s.staged = false → s.service.name = Naming.simProxy root.name :=
    fun h => absurd (staged.symm.trans h) nofun
  exact ((((pickerChildren_titled root s).append (gatewayChildren_titled root s)).append
    (workloadChildren_titled root hname)).append
    (policyChildren_titled root caps hname)).nodup_keys forms_told

/-- Without stages, the service stands between its deployment and the policy. -/
theorem Spec.children_of_unstaged (root : Root) (caps : Capabilities) {s : Spec}
    (unstaged : s.staged = false) :
    s.children root caps = s.pickerChildren root ++ s.gatewayChildren root
      ++ [(s.unstagedWorkload root).deploymentChild root]
      ++ (s.unstagedWorkload root).serviceChild root :: s.policyChildren root caps := by
  have hworkloads : s.workloadChildren root
      = [(s.unstagedWorkload root).deploymentChild root,
          (s.unstagedWorkload root).serviceChild root] := by
    unfold workloadChildren workloads
    rw [if_neg (by simp [unstaged]), List.flatMap_singleton]
    rfl
  unfold children
  rw [hworkloads]
  simp only [List.append_assoc, List.cons_append, List.nil_append]

theorem Spec.keys_apart_iff (root : Root) (caps : Capabilities) (s : Spec) :
    (((s.children root caps).map Child.key).Nodup ↔ s.NamesApart root)
      ∧ (Child.Agree (s.children root caps) ↔ s.NamesApart root) := by
  cases staged : s.staged with
  | true =>
    have once := Spec.nodup_of_staged root caps staged
    have apart : s.NamesApart root := fun h => absurd (staged.symm.trans h) nofun
    exact ⟨iff_of_true once apart, iff_of_true (Child.agree_of_nodup once) apart⟩
  | false =>
    rw [Spec.children_of_unstaged root caps staged,
      Child.nodup_insert_iff (s.others_nodup root caps),
      Child.agree_insert_iff (s.others_nodup root caps) fun _ hc key => s.service_differs hc key]
    exact ⟨s.service_apart_iff root caps staged, s.service_apart_iff root caps staged⟩

end Simulator

/-! ## §6. Children of either -/

namespace RootSpec

/-- The service that can meet another has a name of its own. -/
def NamesApart (root : Root) : RootSpec → Prop
  | install s => s.NamesApart
  | simulator s => s.NamesApart root

/-- The keys of a build are pairwise distinct exactly if the names are apart, and only then are
    children of one key to be the same. -/
theorem keys_distinct_iff (root : Root) (caps : Capabilities) (s : RootSpec) :
    (((s.children root caps).map Child.key).Nodup ↔ s.NamesApart root)
      ∧ (Child.Agree (s.children root caps) ↔ s.NamesApart root) := by
  cases s with
  | install s => exact s.keys_apart_iff root caps
  | simulator s => exact s.keys_apart_iff root caps

end RootSpec

/-- A SchedulerInstall in one namespace whose proxy service is named as its picker is by default. -/
def sharedNameInstall : RootSpec :=
  .install
    { simulatorNamespace := "default"
      proxy := { name := "pool-epp" }
      picker := some { enabled := true } }

/-- Its root. -/
def sharedNameRoot : Root := ⟨.schedulerInstall, "pool", "default", "u-1"⟩

/-- An accepted spec may have two children of one key with different bodies. -/
theorem not_keys_distinct_sharedNameInstall :
    ¬ ∀ (root : Root) (caps : Capabilities) (s : RootSpec),
      (s.withDefaults root.name root.ns).validate = .ok () →
        (((s.withDefaults root.name root.ns).children root caps).map Child.key).Nodup
          ∧ Child.Agree ((s.withDefaults root.name root.ns).children root caps) := by
  intro all
  have distinct := (all sharedNameRoot {} sharedNameInstall (by decide +kernel)).1
  exact absurd distinct (by decide +kernel)

end Converge
