/-
  Converge.Proofs.Children.Names — the names children have by default.

  Each child is named after its root in a form of its own: the name of the root with a fixed text
  before and after it.  Two names of one kind can be equal only if the text behind one root's name
  ends with the text behind the other's.  Among the forms of one kind of root no two of a kind end
  so, hence such a name gives away its form and the name of its root.

  Main statements:
    * `NameForm.clash_of_name_eq` — equal names have forms of which one ends with the other.
    * `RootSpec.children_titled` — the children of a spec with its names left to their defaults
      take the forms of its kind of root, each at most once.
-/
import Converge.Proofs.Children.Seats
import Mathlib.Data.List.Nodup
import Mathlib.Data.List.Pairwise

namespace Converge

/-! ## §1. Forms of names -/

/-- Kind and name of the child: its key without the namespace. -/
def Child.title (c : Child) : Kind × String := (c.body.kind, c.name)

theorem Child.title_of_key {b c : Child} (same : b.key = c.key) : b.title = c.title :=
  congrArg (fun k : Key => (k.kind, k.name)) same

/-- The form of a name: the kind of the child, and what stands around the name of the root. -/
structure NameForm where
  kind : Kind
  front : String := ""
  back : String
deriving DecidableEq

namespace NameForm

/-- The name of this form for a root of the given name. -/
def name (f : NameForm) (root : String) : String := f.front ++ root ++ f.back

/-- Kind and name for a root of the given name. -/
def title (f : NameForm) (root : String) : Kind × String := (f.kind, f.name root)

/-- Roots can be named so that a name of the one form is a name of the other. -/
def Clash (f g : NameForm) : Prop :=
  f.kind = g.kind ∧ (f.back.toList <:+ g.back.toList ∨ g.back.toList <:+ f.back.toList)

instance : DecidableRel Clash := fun f g =>
  inferInstanceAs (Decidable (f.kind = g.kind ∧ _))

theorem Clash.symm {f g : NameForm} (h : f.Clash g) : g.Clash f := ⟨h.1.symm, h.2.symm⟩

theorem name_plain (kind : Kind) (back root : String) :
    name { kind, back } root = root ++ back := by
  unfold name
  rw [String.empty_append]

theorem title_plain (kind : Kind) (back root : String) :
    title { kind, back } root = (kind, root ++ back) := by
  unfold title
  rw [name_plain]

/-- A form and a name of it give the name of the root. -/
theorem name_injective (f : NameForm) : Function.Injective f.name := by
  intro a b h
  exact (String.append_right_inj _).mp ((String.append_left_inj _).mp h)

theorem back_suffix (f : NameForm) (root : String) :
    f.back.toList <:+ (f.name root).toList := by
  unfold name
  rw [String.toList_append]
  exact List.suffix_append _ _

/-- Both texts end the one name, so the shorter ends the longer. -/
theorem clash_of_name_eq {f g : NameForm} {a b : String} (kind : f.kind = g.kind)
    (same : f.name a = g.name b) : f.Clash g := by
  have hf := f.back_suffix a
  rw [same] at hf
  exact ⟨kind, List.suffix_or_suffix_of_suffix hf (g.back_suffix b)⟩

theorem clash_of_title_eq {f g : NameForm} {a b : String} (same : f.title a = g.title b) :
    f.Clash g :=
  clash_of_name_eq (congrArg Prod.fst same) (congrArg Prod.snd same)

instance : Std.Symm fun f g : NameForm => ¬ f.Clash g := ⟨fun _ _ h clash => h clash.symm⟩

/-- No two of the forms clash. -/
def Told (fs : List NameForm) : Prop := fs.Pairwise fun f g => ¬ f.Clash g

instance (fs : List NameForm) : Decidable (Told fs) := inferInstanceAs (Decidable (fs.Pairwise _))

/-- Where no two forms clash, a title tells its form and the name of its root. -/
theorem Told.of_title_eq {fs : List NameForm} (told : Told fs) {f g : NameForm} (hf : f ∈ fs)
    (hg : g ∈ fs) {a b : String} (same : f.title a = g.title b) : f = g ∧ a = b := by
  have hform : f = g := by
    by_contra hne
    exact told.forall hf hg hne (clash_of_title_eq same)
  refine ⟨hform, g.name_injective ?_⟩
  rw [← hform]
  exact (congrArg Prod.snd same).trans (by rw [hform]; rfl)

end NameForm

/-! ## §2. Children named in forms -/

/-- The children have the titles of the forms, each at most once. -/
def Titled (fs : List NameForm) (root : String) (cs : List Child) : Prop :=
  (cs.map Child.title).Sublist (fs.map (NameForm.title · root))

namespace Titled

variable {fs gs : List NameForm} {a b root : String} {cs ds : List Child} {c d : Child}

theorem nil : Titled fs root [] := List.nil_sublist _

theorem append (hc : Titled fs root cs) (hd : Titled gs root ds) :
    Titled (fs ++ gs) root (cs ++ ds) := by
  unfold Titled
  rw [List.map_append, List.map_append]
  exact List.Sublist.append hc hd

theorem single {f : NameForm} (title : c.title = f.title root) : Titled [f] root [c] := by
  unfold Titled
  rw [List.map_singleton, List.map_singleton, title]

/-- More forms may be there than are taken. -/
theorem mono (hc : Titled fs root cs) (more : fs.Sublist gs) : Titled gs root cs :=
  List.Sublist.trans hc (more.map _)

theorem mem (hc : Titled fs root cs) (h : c ∈ cs) : ∃ f ∈ fs, f.title root = c.title :=
  List.mem_map.mp (List.Sublist.subset hc (List.mem_map_of_mem h))

/-- Titles of forms of which no two clash are distinct, and so are the keys. -/
theorem nodup_titles (hc : Titled fs root cs) (told : NameForm.Told fs) :
    (cs.map Child.title).Nodup := by
  refine List.Nodup.sublist hc (List.pairwise_map.mpr (List.Pairwise.imp ?_ told))
  intro f g apart same
  exact apart (NameForm.clash_of_title_eq same)

theorem nodup_keys (hc : Titled fs root cs) (told : NameForm.Told fs) :
    (cs.map Child.key).Nodup := by
  refine List.pairwise_map.mpr (List.Pairwise.imp ?_ (List.pairwise_map.mp (hc.nodup_titles told)))
  intro c d apart same
  exact apart (Child.title_of_key same)

/-- A key that the children of two roots share has forms that clash. -/
theorem clash_of_key (hc : Titled fs a cs) (hd : Titled gs b ds) (mem : c ∈ cs) (memd : d ∈ ds)
    (same : c.key = d.key) : ∃ f ∈ fs, ∃ g ∈ gs, f.title a = g.title b ∧ f.Clash g := by
  obtain ⟨f, hf, hft⟩ := hc.mem mem
  obtain ⟨g, hg, hgt⟩ := hd.mem memd
  have htitle : f.title a = g.title b := by
    rw [hft, hgt]
    exact Child.title_of_key same
  exact ⟨f, hf, g, hg, htitle, NameForm.clash_of_title_eq htitle⟩

/-- Children in forms that do not clash share no key. -/
theorem ne_key (hc : Titled fs a cs) (hd : Titled gs b ds)
    (apart : ∀ f ∈ fs, ∀ g ∈ gs, ¬ f.Clash g) (mem : c ∈ cs) (memd : d ∈ ds) : c.key ≠ d.key := by
  intro same
  obtain ⟨f, hf, g, hg, _, clash⟩ := hc.clash_of_key hd mem memd same
  exact apart f hf g hg clash

/-- Where no two forms clash, children with one key are of roots with one name. -/
theorem root_eq (hc : Titled fs a cs) (hd : Titled fs b ds) (told : NameForm.Told fs)
    (mem : c ∈ cs) (memd : d ∈ ds) (same : c.key = d.key) : a = b := by
  obtain ⟨f, hf, g, hg, htitle, _⟩ := hc.clash_of_key hd mem memd same
  exact (told.of_title_eq hf hg htitle).2

end Titled

/-! ## §3. Pickers -/

/-- The forms of the children of a picker, whose name ends as given. -/
def PickerPlan.forms (back : String) : List NameForm :=
  [{ kind := .serviceAccount, back }, { kind := .role, back }, { kind := .roleBinding, back },
    { kind := .configMap, back := back ++ "-config" }, { kind := .deployment, back },
    { kind := .service, back }]

theorem PickerPlan.children_titled (p : PickerPlan) (root : Root) {r back : String}
    (name : p.name = r ++ back) : Titled (forms back) r (p.children root) := by
  have hconfig : p.configName = r ++ (back ++ "-config") := by
    unfold configName Naming.pickerConfig
    rw [name, String.append_assoc]
  have htitles : (p.children root).map Child.title
      = [(.serviceAccount, p.name), (.role, p.name), (.roleBinding, p.name),
          (.configMap, p.configName), (.deployment, p.name), (.service, p.name)] := rfl
  unfold Titled
  rw [htitles, name, hconfig]
  simp only [forms, List.map_cons, List.map_nil, NameForm.title_plain]
  exact List.Sublist.refl _

/-- The traffic policy of a service, if there is one. -/
theorem Child.policies_titled {root : Root} {caps : Capabilities} {ns service : String}
    {balancing : Option Balancing} {f : NameForm}
    (title : f.title root.name = (.destinationRule, Naming.policy service)) :
    Titled [f] root.name (Child.policies root caps ns service balancing) :=
  Child.policies_cases Titled.nil fun _ _ _ => Titled.single title.symm

/-! ## §4. Children of a SchedulerInstall -/

namespace Install

/-- The forms of the children of the picker block. -/
def pickerForms : List NameForm := PickerPlan.forms "-epp"

/-- The form of the gateway. -/
def gatewayForms : List NameForm := [{ kind := .gateway, back := "-gateway" }]

/-- The form of the proxy service. -/
def proxyForms : List NameForm := [{ kind := .service, back := "-proxy" }]

/-- The forms of the grant and the route. -/
def routingForms : List NameForm :=
  [{ kind := .referenceGrant, back := "-allow-httproute" }, { kind := .httpRoute, back := "-route" }]

/-- The form of the traffic policy. -/
def policyForms : List NameForm := [{ kind := .destinationRule, back := "-proxy-lb" }]

/-- The forms of all children. -/
def forms : List NameForm :=
  pickerForms ++ gatewayForms ++ proxyForms ++ routingForms ++ policyForms

theorem forms_told : NameForm.Told forms := by decide +kernel

variable {root : Root} {s : Spec}

theorem Spec.NamesLeft.proxyName (names : s.NamesLeft) :
    (s.withDefaults root.name root.ns).proxy.name = Naming.proxy root.name := by
  show orText s.proxy.name _ = _
  rw [names.proxy]
  rfl

theorem Spec.NamesLeft.pickerName (names : s.NamesLeft) {p : Picker}
    (hp : (s.withDefaults root.name root.ns).picker = some p) : p.name = Naming.picker root.name := by
  obtain ⟨q, hq, rfl⟩ := Option.map_eq_some_iff.mp hp
  show orText q.name (Naming.picker root.name) = _
  rw [names.picker q hq]
  rfl

theorem Spec.pickerChildren_titled (names : s.NamesLeft) :
    Titled pickerForms root.name ((s.withDefaults root.name root.ns).pickerChildren root) := by
  rw [pickerChildren_eq]
  exact Child.ofBlock_cases Titled.nil fun p hp _ =>
    PickerPlan.children_titled _ root (names.pickerName hp)

theorem Spec.gatewayChildren_titled (names : s.NamesLeft) (caps : Capabilities) :
    Titled gatewayForms root.name
      ((s.withDefaults root.name root.ns).gatewayChildren root caps) := by
  rw [gatewayChildren_eq]
  refine Child.ofBlock_cases Titled.nil fun g hg _ => ?_
  obtain ⟨q, hq, rfl⟩ := Option.map_eq_some_iff.mp hg
  unfold Child.gated
  split
  · refine Titled.single ?_
    rw [NameForm.title_plain]
    show (Kind.gateway, orText q.name (Naming.gateway root.name)) = _
    rw [names.gateway q hq]
    rfl
  · exact Titled.nil

theorem Spec.proxyChild_titled (names : s.NamesLeft) :
    Titled proxyForms root.name [(s.withDefaults root.name root.ns).proxyChild root] := by
  refine Titled.single ?_
  rw [NameForm.title_plain]
  show (Kind.service, (s.withDefaults root.name root.ns).proxy.name) = _
  rw [names.proxyName]
  rfl

theorem Spec.routingChildren_titled (names : s.NamesLeft) (caps : Capabilities) :
    Titled routingForms root.name
      ((s.withDefaults root.name root.ns).routingChildren root caps) := by
  unfold routingChildren
  split
  · show Titled ([{ kind := .referenceGrant, back := "-allow-httproute" }]
      ++ [{ kind := .httpRoute, back := "-route" }]) root.name _
    refine Titled.append ?grant ?route
    case grant =>
      split
      · exact Titled.single (NameForm.title_plain _ _ _).symm
      · exact Titled.nil
    case route =>
      split
      · cases hroute : (s.withDefaults root.name root.ns).routeChild? root with
        | none => exact Titled.nil
        | some c =>
          obtain ⟨r, hr, rfl⟩ := Option.map_eq_some_iff.mp hroute
          obtain ⟨q, hq, rfl⟩ := Option.map_eq_some_iff.mp hr
          refine Titled.single ?_
          rw [NameForm.title_plain]
          show (Kind.httpRoute, orText q.routeName (Naming.route root.name)) = _
          rw [names.route q hq]
          rfl
      · exact Titled.nil
  · exact Titled.nil

theorem Spec.policyChildren_titled (names : s.NamesLeft) (caps : Capabilities) :
    Titled policyForms root.name
      ((s.withDefaults root.name root.ns).policyChildren root caps) := by
  rw [policyChildren_eq]
  refine Child.policies_titled ?_
  rw [NameForm.title_plain, names.proxyName]
  show _ = (Kind.destinationRule, root.name ++ "-proxy" ++ "-lb")
  rw [String.append_assoc]
  rfl

theorem Spec.children_titled (names : s.NamesLeft) (caps : Capabilities) :
    Titled forms root.name ((s.withDefaults root.name root.ns).children root caps) :=
  ((((pickerChildren_titled names).append (gatewayChildren_titled names caps)).append
    (proxyChild_titled names)).append (routingChildren_titled names caps)).append
    (policyChildren_titled names caps)

end Install

/-! ## §5. Children of a SimulatorDeployment -/

namespace Simulator

/-- The forms of the children of the picker block. -/
def pickerForms : List NameForm := PickerPlan.forms "-sim-epp"

/-- The name of a gateway. -/
def gatewayName (root : String) : Flavor → String
  | .standard => Naming.simGateway root
  | .istio => Naming.simIstioGateway root

/-- The forms of the children of a gateway. -/
def gatewayForms : Flavor → List NameForm
  | .standard =>
    [{ kind := .configMap, back := "-sim-gateway" }, { kind := .deployment, back := "-sim-gateway" },
      { kind := .service, back := "-sim-gateway" }]
  | .istio =>
    [{ kind := .deployment, back := "-sim-gateway-istio" },
      { kind := .service, back := "-sim-gateway-istio" }]

/-- The form of the names of a stage. -/
def stageForm (kind : Kind) (stage : String) : NameForm :=
  { kind, front := "ms-sim-", back := "-" ++ stage }

/-- The forms of the children of a stage. -/
def stageForms (stage : String) : List NameForm :=
  [stageForm .deployment stage, stageForm .service stage]

/-- The form of the service of a spec without stages. -/
def proxyForms : List NameForm := [{ kind := .service, back := "-sim-proxy" }]

/-- The forms of the traffic policies of stages. -/
def stagePolicyForms : List NameForm :=
  [stageForm .destinationRule (prefillStage ++ "-lb"),
    stageForm .destinationRule (decodeStage ++ "-lb")]

/-- The form of the traffic policy of a spec without stages. -/
def proxyPolicyForms : List NameForm := [{ kind := .destinationRule, back := "-sim-proxy-lb" }]

/-- The forms of all children. -/
def forms : List NameForm :=
  pickerForms ++ (gatewayForms .standard ++ gatewayForms .istio)
    ++ (stageForms prefillStage ++ stageForms decodeStage ++ proxyForms)
    ++ (stagePolicyForms ++ proxyPolicyForms)

theorem forms_told : NameForm.Told forms := by decide +kernel

variable {root : Root} {s : Spec}

theorem stageForm_title (kind : Kind) (stage root : String) :
    (stageForm kind stage).title root = (kind, Naming.stage root stage) := by
  show (kind, "ms-sim-" ++ root ++ ("-" ++ stage)) = _
  rw [← String.append_assoc]
  rfl

theorem Spec.pickerChildren_titled (root : Root) (s : Spec) :
    Titled pickerForms root.name (s.pickerChildren root) := by
  rw [pickerChildren_eq]
  exact Child.ofBlock_cases Titled.nil fun _ _ _ => PickerPlan.children_titled _ root rfl

theorem GatewayPlan.children_titled (root : Root) (config : GatewayInstance) (backend : Endpoint)
    (flavor : Flavor) :
    Titled (gatewayForms flavor) root.name
      ((⟨gatewayName root.name flavor, flavor, config⟩ : GatewayPlan).children root backend) := by
  unfold Titled
  cases flavor with
  | standard =>
    simp only [gatewayForms, List.map_cons, List.map_nil, NameForm.title_plain]
    exact List.Sublist.refl _
  | istio =>
    simp only [gatewayForms, List.map_cons, List.map_nil, NameForm.title_plain]
    exact List.Sublist.refl _

theorem Spec.gatewayChildren_titled (root : Root) (s : Spec) :
    Titled (gatewayForms .standard ++ gatewayForms .istio) root.name (s.gatewayChildren root) := by
  unfold gatewayChildren gatewayPlans
  split
  · exact Titled.nil
  · rename_i g _
    rw [List.flatMap_append]
    refine Titled.append ?standard ?istio
    case standard =>
      cases g.standard.filter (·.enabled) with
      | none => exact Titled.nil
      | some c =>
        rw [Option.map_some, Option.toList_some, List.flatMap_singleton]
        exact GatewayPlan.children_titled root c _ .standard
    case istio =>
      cases g.istio.filter (·.enabled) with
      | none => exact Titled.nil
      | some c =>
        rw [Option.map_some, Option.toList_some, List.flatMap_singleton]
        exact GatewayPlan.children_titled root c _ .istio

theorem Stage.workload_titled (root : Root) (stage : String) (s : Option Stage) :
    Titled (stageForms stage) root.name
      ((s.map (Stage.workload root stage)).toList.flatMap fun w => w.children root) := by
  cases s with
  | none => exact Titled.nil
  | some s =>
    rw [Option.map_some, Option.toList_some, List.flatMap_singleton]
    unfold Titled stageForms
    simp only [List.map_cons, List.map_nil, stageForm_title]
    exact List.Sublist.refl _

/-- Workloads of stages are named after their stages. -/
theorem Spec.workloadChildren_staged (root : Root) {s : Spec} (staged : s.staged = true) :
    Titled (stageForms prefillStage ++ stageForms decodeStage) root.name
      (s.workloadChildren root) := by
  unfold workloadChildren workloads
  rw [if_pos staged, List.flatMap_append]
  exact (Stage.workload_titled root _ _).append (Stage.workload_titled root _ _)

/-- The deployment and the service of a spec without stages, the latter named by the spec. -/
theorem Spec.workloadChildren_unstaged (root : Root) {s : Spec} (unstaged : s.staged = false) :
    (s.workloadChildren root).map Child.title
      = [(stageForm .deployment decodeStage).title root.name, (.service, s.service.name)] := by
  unfold workloadChildren workloads
  rw [if_neg (by simp [unstaged]), List.flatMap_singleton, stageForm_title]
  rfl

theorem Spec.workloads_ne_nil (root : Root) (s : Spec) : s.workloads root ≠ [] := by
  unfold workloads
  split
  · rename_i staged
    rcases Bool.or_eq_true _ _ |>.mp staged with h | h
    · obtain ⟨p, hp, on⟩ := Option.any_eq_true _ _ |>.mp h
      simp [hp, on]
    · obtain ⟨d, hd, on⟩ := Option.any_eq_true _ _ |>.mp h
      simp [hd, on]
  · exact List.cons_ne_nil _ _

theorem Spec.workloads_stage {root : Root} {s : Spec} {w : Workload}
    (hw : w ∈ s.workloads root) : w.stage = prefillStage ∨ w.stage = decodeStage := by
  unfold workloads at hw
  split at hw
  · rcases List.mem_append.mp hw with hw | hw
    · obtain ⟨p, _, rfl⟩ := Option.map_eq_some_iff.mp (Option.mem_toList.mp hw)
      exact .inl rfl
    · obtain ⟨d, _, rfl⟩ := Option.map_eq_some_iff.mp (Option.mem_toList.mp hw)
      exact .inr rfl
  · rw [List.mem_singleton.mp hw]
    exact .inr rfl

/-- The workload that takes requests is that of the decode stage, or else that of the prefill
    stage. -/
theorem Spec.serving_eq (root : Root) (s : Spec) :
    ∃ w ∈ s.workloads root, s.serving root = ⟨w.service, w.port⟩ ∧
      ((s.workloads root).find? fun w => w.stage = decodeStage).or
        ((s.workloads root).find? fun w => w.stage = prefillStage) = some w := by
  unfold serving
  cases hdecode : (s.workloads root).find? fun w => w.stage = decodeStage with
  | some w =>
    refine ⟨w, List.mem_of_find?_eq_some hdecode, ?_, rfl⟩
    simp only [hdecode]
    rfl
  | none =>
    obtain ⟨w, rest, hcons⟩ := List.exists_cons_of_ne_nil (s.workloads_ne_nil root)
    have hw : w ∈ s.workloads root := hcons ▸ List.mem_cons_self
    have hstage : w.stage = prefillStage := by
      rcases Spec.workloads_stage hw with h | h
      · exact h
      · exact absurd h (by simpa using List.find?_eq_none.mp hdecode w hw)
    refine ⟨w, hw, ?_, ?_⟩
    · simp only [hdecode]
      rw [hcons]
      rfl
    · rw [hcons, List.find?_cons_of_pos (by simpa using hstage)]
      rfl

/-- The service that takes requests is that of one of the workloads. -/
theorem Spec.serving_mem (root : Root) (s : Spec) :
    ∃ w ∈ s.workloads root, s.serving root = ⟨w.service, w.port⟩ := by
  obtain ⟨w, hw, hserving, _⟩ := s.serving_eq root
  exact ⟨w, hw, hserving⟩

theorem stagePolicy_title (stage root : String) :
    (stageForm .destinationRule (stage ++ "-lb")).title root
      = (.destinationRule, Naming.policy (Naming.stage root stage)) := by
  rw [stageForm_title]
  unfold Naming.policy Naming.stage
  rw [← String.append_assoc]

/-- The policy is named after the service that takes requests, here that of a stage. -/
theorem Spec.policyChildren_staged (root : Root) (caps : Capabilities) {s : Spec}
    (staged : s.staged = true) :
    Titled stagePolicyForms root.name (s.policyChildren root caps) := by
  obtain ⟨w, hw, hserving⟩ := s.serving_mem root
  rw [policyChildren_eq, hserving]
  unfold workloads at hw
  rw [if_pos staged] at hw
  rcases List.mem_append.mp hw with hw | hw
  · obtain ⟨p, _, rfl⟩ := Option.map_eq_some_iff.mp (Option.mem_toList.mp hw)
    exact (Child.policies_titled (stagePolicy_title prefillStage root.name)).mono
      ((List.nil_sublist _).cons_cons _)
  · obtain ⟨d, _, rfl⟩ := Option.map_eq_some_iff.mp (Option.mem_toList.mp hw)
    exact (Child.policies_titled (stagePolicy_title decodeStage root.name)).mono
      ((List.Sublist.refl _).cons _)

/-- Without stages, the policy is named after the service of the spec. -/
theorem Spec.policyChildren_unstaged (root : Root) (caps : Capabilities) {s : Spec}
    (unstaged : s.staged = false) (name : s.service.name = Naming.simProxy root.name) :
    Titled proxyPolicyForms root.name (s.policyChildren root caps) := by
  obtain ⟨w, hw, hserving⟩ := s.serving_mem root
  unfold workloads at hw
  rw [if_neg (by simp [unstaged])] at hw
  rw [policyChildren_eq, hserving, List.mem_singleton.mp hw]
  refine Child.policies_titled ?_
  rw [NameForm.title_plain]
  show _ = (Kind.destinationRule, s.service.name ++ "-lb")
  rw [name]
  unfold Naming.simProxy
  rw [String.append_assoc]
  rfl

theorem Spec.policyChildren_titled (root : Root) (caps : Capabilities) {s : Spec}
    (name : s.staged = false → s.service.name = Naming.simProxy root.name) :
    Titled (stagePolicyForms ++ proxyPolicyForms) root.name (s.policyChildren root caps) := by
  cases staged : s.staged with
  | true => exact (policyChildren_staged root caps staged).mono (List.sublist_append_left _ _)
  | false =>
    exact (policyChildren_unstaged root caps staged (name staged)).mono
      (List.sublist_append_right _ _)

theorem Spec.workloadChildren_titled (root : Root) {s : Spec}
    (name : s.staged = false → s.service.name = Naming.simProxy root.name) :
    Titled (stageForms prefillStage ++ stageForms decodeStage ++ proxyForms) root.name
      (s.workloadChildren root) := by
  cases staged : s.staged with
  | true => exact (workloadChildren_staged root staged).mono (List.sublist_append_left _ _)
  | false =>
    have hforms : Titled [stageForm .deployment decodeStage, { kind := .service, back := "-sim-proxy" }]
        root.name (s.workloadChildren root) := by
      unfold Titled
      rw [workloadChildren_unstaged root staged, name staged]
      simp only [List.map_cons, List.map_nil, NameForm.title_plain]
      exact List.Sublist.refl _
    refine hforms.mono ?_
    decide +kernel

theorem Spec.serviceName (names : s.service.name = "") :
    (s.withDefaults root.name).service.name = Naming.simProxy root.name := by
  show orText s.service.name _ = _
  rw [names]
  rfl

theorem Spec.children_titled (names : s.service.name = "") (caps : Capabilities) :
    Titled forms root.name ((s.withDefaults root.name).children root caps) :=
  (((pickerChildren_titled root _).append (gatewayChildren_titled root _)).append
    (workloadChildren_titled root fun _ => serviceName names)).append
    (policyChildren_titled root caps fun _ => serviceName names)

end Simulator

/-! ## §6. Children of either -/

namespace RootSpec

/-- The forms of the children of a kind of root. -/
def forms : RootKind → List NameForm
  | .schedulerInstall => Install.forms
  | .simulatorDeployment => Simulator.forms

theorem forms_told (kind : RootKind) : NameForm.Told (forms kind) := by
  cases kind with
  | schedulerInstall => exact Install.forms_told
  | simulatorDeployment => exact Simulator.forms_told

/-- With child names left to their defaults, children take the forms of their kind of root, each
    at most once. -/
theorem children_titled (root : Root) {s : RootSpec} (names : s.NamesLeft) (caps : Capabilities) :
    Titled (forms s.kind) root.name
      ((s.withDefaults root.name root.ns).children root caps) := by
  cases s with
  | install s => exact Install.Spec.children_titled names caps
  | simulator s => exact Simulator.Spec.children_titled names caps

/-- Roots of one kind whose children share a key have one name. -/
theorem name_eq_of_key {a b : Root} {s t : RootSpec} (same : s.kind = t.kind)
    (hs : s.NamesLeft) (ht : t.NamesLeft) {caps capt : Capabilities} {c d : Child}
    (hc : c ∈ (s.withDefaults a.name a.ns).children a caps)
    (hd : d ∈ (t.withDefaults b.name b.ns).children b capt) (key : c.key = d.key) :
    a.name = b.name := by
  have hforms := children_titled b ht capt
  rw [← same] at hforms
  exact (children_titled a hs caps).root_eq hforms (forms_told _) hc hd key

end RootSpec

end Converge
