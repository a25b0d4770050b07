/-
  Converge.Proofs.Children.Strangers — when the children of two roots share a key.

  Child names are left to their defaults here, so each is the name of the root in a form.  Within a
  kind of root the forms do not clash, and roots of different names have nothing in common.  Across
  the kinds some do: each form of a SimulatorDeployment that clashes with one of a SchedulerInstall
  has `-sim` before the other's ending, so that a SchedulerInstall whose own name ends in `-sim`
  takes the names of the SimulatorDeployment without that ending.

  Main statements:
    * `RootSpec.keys_disjoint` — roots of one kind with different names share no key, and the keys
      of each are pairwise distinct.
    * `Install.keys_disjoint_iff` — a SchedulerInstall and a SimulatorDeployment share no key
      exactly if they do not meet, in name and namespace.
-/
import Converge.Proofs.Children.Homes
import Converge.Proofs.Children.Names

namespace Converge

/-! ## §1. Roots of one kind -/

/-- Builds of two roots of one kind with different names, child names left to their defaults, share
    no key, and within each of them all keys are pairwise distinct. -/
theorem RootSpec.keys_disjoint {a b : Root} {s t : RootSpec} (same : s.kind = t.kind)
    (different : a.name ≠ b.name) (hs : s.NamesLeft) (ht : t.NamesLeft) (caps capt : Capabilities) :
    List.Disjoint (((s.withDefaults a.name a.ns).children a caps).map Child.key)
        (((t.withDefaults b.name b.ns).children b capt).map Child.key)
      ∧ (((s.withDefaults a.name a.ns).children a caps).map Child.key).Nodup
      ∧ (((t.withDefaults b.name b.ns).children b capt).map Child.key).Nodup := by
  refine ⟨?disjoint, ?once, ?oncet⟩
  case disjoint =>
    intro key hkey hkey'
    obtain ⟨c, hc, rfl⟩ := List.mem_map.mp hkey
    obtain ⟨d, hd, hkey⟩ := List.mem_map.mp hkey'
    exact different (RootSpec.name_eq_of_key same hs ht hc hd hkey.symm)
  case once => exact (RootSpec.children_titled a hs caps).nodup_keys (RootSpec.forms_told _)
  case oncet => exact (RootSpec.children_titled b ht capt).nodup_keys (RootSpec.forms_told _)

/-- A SchedulerInstall with all that it can have. -/
def fullInstall : RootSpec :=
  .install
    { simulatorNamespace := "sims"
      picker := some { enabled := true }
      gateway := some { enabled := true }
      routing := some { enabled := true }
      balancing := some { enabled := true } }

theorem fullInstall_namesLeft : fullInstall.NamesLeft where
  proxy := rfl
  picker := by
    rintro p ⟨⟩
    rfl
  gateway := by
    rintro g ⟨⟩
    rfl
  route := by
    rintro r ⟨⟩
    rfl

/-- Two roots in one namespace, one of them named as a child of the other. -/
theorem keys_disjoint_namedAsChild :
    let a : Root := ⟨.schedulerInstall, "pool", "default", "u-1"⟩
    let b : Root := ⟨.schedulerInstall, "pool-epp", "default", "u-2"⟩
    ((fullInstall.withDefaults a.name a.ns).children a {}).length = 11
      ∧ List.Disjoint (((fullInstall.withDefaults a.name a.ns).children a {}).map Child.key)
        (((fullInstall.withDefaults b.name b.ns).children b {}).map Child.key)
      ∧ (((fullInstall.withDefaults a.name a.ns).children a {}).map Child.key).Nodup
      ∧ (((fullInstall.withDefaults b.name b.ns).children b {}).map Child.key).Nodup := by
  intro a b
  refine ⟨by decide +kernel, ?_⟩
  exact RootSpec.keys_disjoint (s := fullInstall) (t := fullInstall) rfl (by decide)
    fullInstall_namesLeft fullInstall_namesLeft {} {}

/-! ## §2. Roots of the two kinds -/

/-- Forms of the two kinds clash only if one has `-sim` before the ending of the other. -/
theorem NameForm.sim_of_clash : ∀ f ∈ Install.forms, ∀ g ∈ Simulator.forms, f.Clash g →
    f.front = "" ∧ g.front = "" ∧ g.back = "-sim" ++ f.back := by
  decide +kernel

/-- Names of the two kinds are equal only if one root is named as the other, with `-sim` after. -/
theorem NameForm.name_sim {f g : NameForm} (hf : f ∈ Install.forms) (hg : g ∈ Simulator.forms)
    {a b : String} (clash : f.Clash g) (same : f.title a = g.title b) : a = b ++ "-sim" := by
  obtain ⟨hfront, hgfront, hback⟩ := NameForm.sim_of_clash f hf g hg clash
  have hname : f.name a = g.name b := congrArg Prod.snd same
  unfold NameForm.name at hname
  rw [hfront, hgfront, hback, String.empty_append, String.empty_append, ← String.append_assoc]
    at hname
  exact (String.append_left_inj _).mp hname

namespace Simulator

/-- The children apart from those of the picker. -/
def Spec.unpicked (root : Root) (caps : Capabilities) (s : Spec) : List Child :=
  s.gatewayChildren root ++ s.workloadChildren root ++ s.policyChildren root caps

theorem Spec.mem_children {root : Root} {caps : Capabilities} {s : Spec} {c : Child} :
    c ∈ s.children root caps ↔ c ∈ s.pickerChildren root ∨ c ∈ s.unpicked root caps := by
  simp only [children, unpicked, List.mem_append, or_assoc]

/-- Their forms where the simulators run in stages. -/
def stagedForms : List NameForm :=
  gatewayForms .standard ++ gatewayForms .istio ++ (stageForms prefillStage ++ stageForms decodeStage)
    ++ stagePolicyForms

/-- Their forms. -/
def unpickedForms : List NameForm :=
  gatewayForms .standard ++ gatewayForms .istio
    ++ (stageForms prefillStage ++ stageForms decodeStage ++ proxyForms)
    ++ (stagePolicyForms ++ proxyPolicyForms)

theorem Spec.unpicked_staged (root : Root) (caps : Capabilities) {s : Spec}
    (staged : s.staged = true) : Titled stagedForms root.name (s.unpicked root caps) :=
  ((s.gatewayChildren_titled root).append (workloadChildren_staged root staged)).append
    (policyChildren_staged root caps staged)

theorem Spec.unpicked_titled {root : Root} (caps : Capabilities) {s : Spec}
    (names : s.service.name = "") :
    Titled unpickedForms root.name ((s.withDefaults root.name).unpicked root caps) :=
  ((Spec.gatewayChildren_titled root _).append
    (workloadChildren_titled root fun _ => serviceName names)).append
    (policyChildren_titled root caps fun _ => serviceName names)

end Simulator

namespace Install

/-- The children apart from those of the picker. -/
def Spec.unpicked (root : Root) (caps : Capabilities) (s : Spec) : List Child :=
  s.gatewayChildren root caps ++ [s.proxyChild root] ++ s.routingChildren root caps
    ++ s.policyChildren root caps

theorem Spec.mem_children {root : Root} {caps : Capabilities} {s : Spec} {c : Child} :
    c ∈ s.children root caps ↔ c ∈ s.pickerChildren root ∨ c ∈ s.unpicked root caps := by
  simp only [children, unpicked, List.mem_append, or_assoc]

/-- Their forms. -/
def unpickedForms : List NameForm := gatewayForms ++ proxyForms ++ routingForms ++ policyForms

variable {a b : Root} {s : Spec} {t : Simulator.Spec} {caps capt : Capabilities} {c d : Child}

theorem Spec.unpicked_titled (names : s.NamesLeft) (caps : Capabilities) :
    Titled unpickedForms a.name ((s.withDefaults a.name a.ns).unpicked a caps) :=
  (((gatewayChildren_titled names caps).append (proxyChild_titled names)).append
    (routingChildren_titled names caps)).append (policyChildren_titled names caps)

/-- A SchedulerInstall and a SimulatorDeployment have names, and places for their children, at
    which their builds come together: those of two pickers, or the two services in front of the
    simulators. -/
def Meet (a b : Root) (s : Spec) (t : Simulator.Spec) : Prop :=
  a.name = b.name ++ "-sim" ∧
    (((∃ p, s.picker = some p ∧ p.enabled = true) ∧ (∃ q, t.picker = some q ∧ q.enabled = true)
        ∧ (s.schedulerNamespace = b.ns ∨ s.simulatorNamespace = b.ns))
      ∨ (t.staged = false ∧ s.simulatorNamespace = b.ns))

/-- Only the proxy service and its policy can meet a child of a SimulatorDeployment that is no
    part of a picker; both are in the simulators' namespace. -/
theorem Spec.unpicked_ns (hs : s.NamesLeft) (ht : t.service.name = "")
    (hc : c ∈ (s.withDefaults a.name a.ns).unpicked a caps)
    (hd : d ∈ (t.withDefaults b.name).unpicked b capt) (key : c.key = d.key) :
    c.ns = s.simulatorNamespace := by
  have htitled : Titled Simulator.unpickedForms b.name ((t.withDefaults b.name).unpicked b capt) :=
    Simulator.Spec.unpicked_titled capt ht
  unfold unpicked at hc
  simp only [List.mem_append] at hc
  rcases hc with ((hc | hc) | hc) | hc
  · exact absurd key ((gatewayChildren_titled hs caps).ne_key htitled (by decide +kernel) hc hd)
  · rw [List.mem_singleton.mp hc]
    rfl
  · exact absurd key ((routingChildren_titled hs caps).ne_key htitled (by decide +kernel) hc hd)
  · rw [policyChildren_eq] at hc
    exact Child.forall_policies (P := fun c => c.ns = s.simulatorNamespace)
      (fun _ _ _ _ => rfl) c hc

/-- Builds that share a key meet. -/
theorem meet_of_key (hs : s.NamesLeft) (ht : t.service.name = "")
    (hc : c ∈ (s.withDefaults a.name a.ns).children a caps)
    (hd : d ∈ (t.withDefaults b.name).children b capt) (key : c.key = d.key) :
    Meet a b (s.withDefaults a.name a.ns) (t.withDefaults b.name) := by
  obtain ⟨f, hf, g, hg, htitle, clash⟩ := (Spec.children_titled hs caps).clash_of_key
    (Simulator.Spec.children_titled ht capt) hc hd key
  refine ⟨NameForm.name_sim hf hg clash htitle, ?_⟩
  have hns : c.ns = b.ns := by
    rw [← Simulator.Spec.children_home b capt _ d hd]
    exact congrArg Key.ns key
  have hhome := Spec.children_home a caps _ c hc
  rcases Spec.mem_children.mp hc with hc | hc
  · rcases Simulator.Spec.mem_children.mp hd with hd | hd
    · -- children of both pickers
      rw [Spec.pickerChildren_eq] at hc
      rw [Simulator.Spec.pickerChildren_eq] at hd
      obtain ⟨p, hp, on, _⟩ := Child.mem_ofBlock.mp hc
      obtain ⟨q, hq, onq, _⟩ := Child.mem_ofBlock.mp hd
      refine .inl ⟨⟨p, hp, on⟩, ⟨q, hq, onq⟩, ?_⟩
      rcases hhome with h | h
      · exact .inl (h.symm.trans hns)
      · exact .inr (h.symm.trans hns)
    · exact absurd key ((Spec.pickerChildren_titled hs).ne_key
        (Simulator.Spec.unpicked_titled capt ht) (by decide +kernel) hc hd)
  · rcases Simulator.Spec.mem_children.mp hd with hd | hd
    · exact absurd key ((Spec.unpicked_titled hs caps).ne_key
        (Simulator.Spec.pickerChildren_titled b _) (by decide +kernel) hc hd)
    · -- the services in front of the simulators, or their policies
      refine .inr ⟨?_, (Spec.unpicked_ns hs ht hc hd key).symm.trans hns⟩
      cases staged : (t.withDefaults b.name).staged with
      | false => rfl
      | true =>
        exact absurd key ((Spec.unpicked_titled hs caps).ne_key
          (Simulator.Spec.unpicked_staged b capt staged) (by decide +kernel) hc hd)

/-- Builds that meet share a key: of the service accounts or roles of the pickers, or of the
    services in front of the simulators. -/
theorem key_of_meet (hs : s.NamesLeft) (ht : t.service.name = "")
    (meet : Meet a b (s.withDefaults a.name a.ns) (t.withDefaults b.name))
    (caps capt : Capabilities) :
    ∃ c ∈ (s.withDefaults a.name a.ns).children a caps,
      ∃ d ∈ (t.withDefaults b.name).children b capt, c.key = d.key := by
  obtain ⟨hname, ⟨⟨p, hp, on⟩, ⟨q, hq, onq⟩, hns⟩ | ⟨unstaged, hns⟩⟩ := meet
  · -- two pickers with one name
    have hpicker : p.name = Naming.simPicker b.name := by
      rw [hs.pickerName hp, hname]
      unfold Naming.picker Naming.simPicker
      rw [String.append_assoc]
      rfl
    have hmem : ∀ c ∈ (p.plan a (s.withDefaults a.name a.ns)).children a,
        c ∈ (s.withDefaults a.name a.ns).children a caps := by
      intro c hc
      rw [Spec.mem_children, Spec.pickerChildren_eq]
      exact .inl (Child.mem_ofBlock.mpr ⟨p, hp, on, hc⟩)
    have hmemt : ∀ d ∈ (q.plan b).children b, d ∈ (t.withDefaults b.name).children b capt := by
      intro d hd
      rw [Simulator.Spec.mem_children, Simulator.Spec.pickerChildren_eq]
      exact .inl (Child.mem_ofBlock.mpr ⟨q, hq, onq, hd⟩)
    rcases hns with hns | hns
    · refine ⟨_, hmem _ List.mem_cons_self, _, hmemt _ List.mem_cons_self, ?_⟩
      show (⟨.serviceAccount, (s.withDefaults a.name a.ns).schedulerNamespace, p.name⟩ : Key)
        = ⟨.serviceAccount, b.ns, Naming.simPicker b.name⟩
      rw [hns, hpicker]
    · refine ⟨_, hmem _ (List.mem_cons_of_mem _ List.mem_cons_self),
        _, hmemt _ (List.mem_cons_of_mem _ List.mem_cons_self), ?_⟩
      show (⟨.role, (s.withDefaults a.name a.ns).simulatorNamespace, p.name⟩ : Key)
        = ⟨.role, b.ns, Naming.simPicker b.name⟩
      rw [hns, hpicker]
  · -- the two services in front of the simulators
    have hproxy : (s.withDefaults a.name a.ns).proxy.name
        = (t.withDefaults b.name).service.name := by
      rw [hs.proxyName, Simulator.Spec.serviceName ht, hname]
      unfold Naming.proxy Naming.simProxy
      rw [String.append_assoc]
      rfl
    have hmem : (s.withDefaults a.name a.ns).proxyChild a
        ∈ (s.withDefaults a.name a.ns).children a caps :=
      Spec.mem_children.mpr (.inr (by simp [Spec.unpicked]))
    obtain ⟨d, hd, hkey⟩ : ∃ d ∈ (t.withDefaults b.name).workloadChildren b,
        d.key = ⟨.service, b.ns, (t.withDefaults b.name).service.name⟩ := by
      unfold Simulator.Spec.workloadChildren Simulator.Spec.workloads
      rw [if_neg (by simp [unstaged]), List.flatMap_singleton]
      exact ⟨_, List.mem_cons_of_mem _ List.mem_cons_self, rfl⟩
    refine ⟨_, hmem, d, Simulator.Spec.mem_children.mpr (.inr ?_), ?_⟩
    · unfold Simulator.Spec.unpicked
      exact List.mem_append_left _ (List.mem_append_right _ hd)
    · rw [hkey, ← hns, ← hproxy]
      rfl

/-- A SchedulerInstall and a SimulatorDeployment, child names left to their defaults, share no key
    exactly if they do not meet. -/
theorem keys_disjoint_iff (a b : Root) {s : Spec} {t : Simulator.Spec} (hs : s.NamesLeft)
    (ht : t.service.name = "") (caps capt : Capabilities) :
    List.Disjoint (((s.withDefaults a.name a.ns).children a caps).map Child.key)
        (((t.withDefaults b.name).children b capt).map Child.key)
      ↔ ¬ Meet a b (s.withDefaults a.name a.ns) (t.withDefaults b.name) := by
  constructor
  · intro disjoint meet
    obtain ⟨c, hc, d, hd, key⟩ := key_of_meet hs ht meet caps capt
    exact disjoint (List.mem_map_of_mem hc) (key ▸ List.mem_map_of_mem hd)
  · intro apart key hkey hkey'
    obtain ⟨c, hc, rfl⟩ := List.mem_map.mp hkey
    obtain ⟨d, hd, hkey⟩ := List.mem_map.mp hkey'
    exact apart (meet_of_key hs ht hc hd hkey.symm)

/-- A SchedulerInstall with the simulators in the default namespace, and nothing else. -/
def bareInstall : Spec := { simulatorNamespace := "default" }

theorem bareInstall_namesLeft : bareInstall.NamesLeft := ⟨rfl, nofun, nofun, nofun⟩

/-- Roots of the same name share no child, and roots of different names may. -/
theorem keys_disjoint_iff_bareInstall :
    let pool : Root := ⟨.schedulerInstall, "pool", "default", "u-1"⟩
    let poolSim : Root := ⟨.schedulerInstall, "pool-sim", "default", "u-2"⟩
    let sim : Root := ⟨.simulatorDeployment, "pool", "default", "u-3"⟩
    List.Disjoint (((bareInstall.withDefaults pool.name pool.ns).children pool {}).map Child.key)
        (((({} : Simulator.Spec).withDefaults sim.name).children sim {}).map Child.key)
      ∧ ¬ List.Disjoint
        (((bareInstall.withDefaults poolSim.name poolSim.ns).children poolSim {}).map Child.key)
        (((({} : Simulator.Spec).withDefaults sim.name).children sim {}).map Child.key) := by
  intro pool poolSim sim
  refine ⟨(keys_disjoint_iff pool sim bareInstall_namesLeft rfl {} {}).mpr ?apart, ?meet⟩
  case apart =>
    intro meet
    exact absurd meet.1 (by decide)
  case meet =>
    intro disjoint
    refine (keys_disjoint_iff poolSim sim bareInstall_namesLeft rfl {} {}).mp disjoint ?_
    exact ⟨by decide, .inr ⟨rfl, rfl⟩⟩

/-- Different names are not enough: accepted specs with child names left to their defaults may
    share a key. -/
theorem not_keys_disjoint_bareInstall :
    ¬ ∀ (a b : Root) (s : Spec) (t : Simulator.Spec) (caps capt : Capabilities),
      a.kind = .schedulerInstall → b.kind = .simulatorDeployment → a.name ≠ b.name →
      s.NamesLeft → t.service.name = "" →
      (s.withDefaults a.name a.ns).validate = .ok () → (t.withDefaults b.name).validate = .ok () →
        List.Disjoint (((s.withDefaults a.name a.ns).children a caps).map Child.key)
          (((t.withDefaults b.name).children b capt).map Child.key) := by
  intro all
  have disjoint := all ⟨.schedulerInstall, "pool-sim", "default", "u-2"⟩
    ⟨.simulatorDeployment, "pool", "default", "u-3"⟩ bareInstall {} {} {} rfl rfl (by decide)
    bareInstall_namesLeft rfl (by decide +kernel) (by decide +kernel)
  have shared : (⟨.service, "default", "pool-sim-proxy"⟩ : Key)
      ∈ ((({} : Simulator.Spec).withDefaults "pool").children
        ⟨.simulatorDeployment, "pool", "default", "u-3"⟩ {}).map Child.key := by
    decide +kernel
  exact disjoint (by decide +kernel) shared

end Install

end Converge
