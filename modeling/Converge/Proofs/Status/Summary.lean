/-
  Converge.Proofs.Status.Summary — the summary in a status agrees with the build.

  The summary of a SimulatorDeployment is computed from the spec anew.  Names and ports are put
  together a second time, and the observations of the serving deployments are looked up by name
  among those of the picker and of the gateways.  Here the summary is compared with the children
  themselves.  Whose a child is, its component label tells: children of workloads have none.

  Main statements:
    * `Spec.servingDeployments_eq`, `Spec.gatewayServices_eq` — what is built for whom.
    * `Spec.Observed.seen` — each serving deployment is found by its name, and was observed once.
    * `Spec.serving_builtWith` — which service takes requests.
    * `Spec.summarize_agrees` — the summary is that of the serving deployments and their services.
-/
import Converge.Proofs.Children.Homes
import Converge.Proofs.Children.Selection
import Converge.Simulator.Summary
import Mathlib.Algebra.Ring.Int.Defs

namespace Converge

/-! ## §1. Whose a child is -/

/-- The component that a child is a part of. -/
def Child.component? (c : Child) : Option String := Table.get? c.labels componentLabel

/-- The role of the pods of a child. -/
def Child.role? (c : Child) : Option String := Table.get? c.labels roleLabel

theorem PickerPlan.children_component (p : PickerPlan) (root : Root) :
    ∀ c ∈ p.children root, c.component? = some "epp" := by
  have hlabels : Table.get? p.labels componentLabel = some "epp" := by
    simp [labels, Table.ofEntries, Table.insertAll, nameLabel, componentLabel]
  exact forall_children hlabels hlabels hlabels hlabels hlabels hlabels

namespace Simulator

theorem GatewayPlan.children_component (p : GatewayPlan) (root : Root) (backend : Endpoint) :
    ∀ c ∈ p.children root backend, c.component? = some "gateway" := by
  have hlabels : Table.get? (p.labels root) componentLabel = some "gateway" := by
    obtain ⟨name, flavor, config⟩ := p
    cases flavor <;> simp [labels, Table.ofEntries, Table.insertAll, nameLabel, componentLabel]
  exact forall_children (fun _ => hlabels) hlabels hlabels

theorem Workload.children_component (w : Workload) (root : Root) :
    ∀ c ∈ w.children root, c.component? = none := by
  have hlabels : Table.get? (w.labels root) componentLabel = none := by
    simp [labels, Table.ofEntries, Table.insertAll, nameLabel, roleLabel, servingLabel,
      componentLabel]
  exact forall_children hlabels hlabels

theorem Spec.pickerChildren_component {root : Root} {s : Spec} {c : Child}
    (hc : c ∈ s.pickerChildren root) : c.component? = some "epp" := by
  rw [s.pickerChildren_eq] at hc
  obtain ⟨p, _, _, hc⟩ := Child.mem_ofBlock.mp hc
  exact PickerPlan.children_component _ root c hc

theorem Spec.gatewayChildren_component {root : Root} {s : Spec} {c : Child}
    (hc : c ∈ s.gatewayChildren root) : c.component? = some "gateway" := by
  obtain ⟨p, _, hc⟩ := List.mem_flatMap.mp hc
  exact p.children_component root _ c hc

/-- Nothing of a picker is a gateway's. -/
theorem Spec.pickerChildren_disjoint {root : Root} {s : Spec} {c : Child}
    (hc : c ∈ s.pickerChildren root) : c ∉ s.gatewayChildren root := by
  intro h
  have hsame := (Spec.pickerChildren_component hc).symm.trans (Spec.gatewayChildren_component h)
  exact absurd hsame (by decide)

/-- Nothing of a workload is the picker's or a gateway's. -/
theorem Workload.children_disjoint {w : Workload} {root : Root} {c : Child}
    (hc : c ∈ w.children root) (s : Spec) :
    c ∉ s.pickerChildren root ∧ c ∉ s.gatewayChildren root := by
  have hnone := w.children_component root c hc
  refine ⟨?_, ?_⟩
  · exact fun h => nomatch hnone.symm.trans (Spec.pickerChildren_component h)
  · exact fun h => nomatch hnone.symm.trans (Spec.gatewayChildren_component h)

/-! ## §2. Serving deployments and gateway services -/

/-- The deployments of a build that are neither the picker's nor a gateway's. -/
def Spec.servingDeployments (root : Root) (caps : Capabilities) (s : Spec) : List Child :=
  (s.children root caps).filter fun c =>
    c.body.kind = .deployment ∧ c ∉ s.pickerChildren root ∧ c ∉ s.gatewayChildren root

/-- The services of a build that are a gateway's. -/
def Spec.gatewayServices (root : Root) (caps : Capabilities) (s : Spec) : List Child :=
  (s.children root caps).filter fun c => c.body.kind = .service ∧ c ∈ s.gatewayChildren root

/-- The serving deployments are those of the workloads, in order. -/
theorem Spec.servingDeployments_eq (root : Root) (caps : Capabilities) (s : Spec) :
    s.servingDeployments root caps = (s.workloads root).map (·.deploymentChild root) := by
  unfold servingDeployments
  generalize hserves : (fun c : Child => decide (c.body.kind = .deployment ∧
    c ∉ s.pickerChildren root ∧ c ∉ s.gatewayChildren root)) = serves
  -- of the four blocks of a build, that of the workloads alone is left
  have hpicker : (s.pickerChildren root).filter serves = [] := by
    refine List.filter_eq_nil_iff.mpr fun c hc => ?_
    simp [← hserves, hc]
  have hgateways : (s.gatewayChildren root).filter serves = [] := by
    refine List.filter_eq_nil_iff.mpr fun c hc => ?_
    simp [← hserves, hc]
  have hpolicy : (s.policyChildren root caps).filter serves = [] := by
    refine List.filter_eq_nil_iff.mpr fun c hc => ?_
    simp [← hserves, Spec.policyChildren_kind _ hc]
  have hworkload (w : Workload) : (w.children root).filter serves = [w.deploymentChild root] := by
    have hserves : ∀ c ∈ w.children root, serves c = decide (c.body.kind = .deployment) := by
      intro c hc
      simp [← hserves, Workload.children_disjoint hc s]
    rw [List.filter_congr hserves]
    rfl
  unfold children workloadChildren
  rw [List.filter_append, List.filter_append, List.filter_append, hpicker, hgateways, hpolicy,
    List.filter_flatMap, List.map_eq_flatMap, List.nil_append, List.nil_append, List.append_nil]
  exact List.flatMap_congr fun w _ => hworkload w

/-- The gateway services are those of the plans, in order. -/
theorem Spec.gatewayServices_eq (root : Root) (caps : Capabilities) (s : Spec) :
    s.gatewayServices root caps = (s.gatewayPlans root).map (·.serviceChild root) := by
  unfold gatewayServices
  generalize hfront : (fun c : Child => decide (c.body.kind = .service ∧
    c ∈ s.gatewayChildren root)) = front
  -- here the block of the gateways alone is left
  have hpicker : (s.pickerChildren root).filter front = [] := by
    refine List.filter_eq_nil_iff.mpr fun c hc => ?_
    simp [← hfront, Spec.pickerChildren_disjoint hc]
  have hworkloads : (s.workloadChildren root).filter front = [] := by
    refine List.filter_eq_nil_iff.mpr fun c hc => ?_
    obtain ⟨w, _, hc⟩ := List.mem_flatMap.mp hc
    simp [← hfront, (Workload.children_disjoint hc s).2]
  have hpolicy : (s.policyChildren root caps).filter front = [] := by
    refine List.filter_eq_nil_iff.mpr fun c hc => ?_
    simp [← hfront, Spec.policyChildren_kind _ hc]
  have hplan : ∀ p ∈ s.gatewayPlans root,
      (p.children root (s.serving root)).filter front = [p.serviceChild root] := by
    intro p hp
    have hfront : ∀ c ∈ p.children root (s.serving root),
        front c = decide (c.body.kind = .service) := by
      intro c hc
      have hmem : c ∈ s.gatewayChildren root := List.mem_flatMap.mpr ⟨p, hp, hc⟩
      simp [← hfront, hmem]
    rw [List.filter_congr hfront]
    obtain ⟨name, flavor, config⟩ := p
    cases flavor <;> rfl
  unfold children
  rw [List.filter_append, List.filter_append, List.filter_append, hpicker, hworkloads, hpolicy,
    List.nil_append, List.append_nil, List.append_nil]
  show ((s.gatewayPlans root).flatMap fun p => p.children root (s.serving root)).filter front = _
  rw [List.filter_flatMap, List.map_eq_flatMap]
  exact List.flatMap_congr hplan

/-! ## §3. Totals -/

/-- What is counted of deployments in observations, in all. -/
def total (count : Observation → Int32) (observations : List Observation) (ds : List Child) : Int :=
  (ds.map fun d =>
    ((observations.filter fun o => o.key = d.key).map fun o => (count o).toInt).sum).sum

/-- The observations are those of the deployments of a build, one of each. -/
def Spec.Observed (root : Root) (caps : Capabilities) (s : Spec)
    (observations : List Observation) : Prop :=
  (observations.map (·.key)).Perm (((s.children root caps).filter (·.tracked)).map Child.key)

/-- Where no two observations have one key, a key is observed once. -/
theorem filter_key_of_nodup {observations : List Observation}
    (once : (observations.map (·.key)).Nodup) {key : Key} (h : key ∈ observations.map (·.key)) :
    ∃ o, observations.filter (fun o => o.key = key) = [o] := by
  have hcount : (observations.map (·.key)).count key = 1 := List.count_eq_one_of_mem once h
  unfold List.count at hcount
  rw [List.countP_map, List.countP_eq_length_filter] at hcount
  obtain ⟨o, ho⟩ := List.length_eq_one_iff.mp hcount
  exact ⟨o, ho⟩

variable {root : Root} {caps : Capabilities} {s : Spec} {observations : List Observation}

/-- A serving deployment was observed once, and that observation is the first one of its name. -/
theorem Spec.Observed.seen (h : s.Observed root caps observations) {w : Workload}
    (hw : w ∈ s.workloads root) :
    ∃ o, observed? observations w.deployment = some o ∧
      observations.filter (fun o => o.key = (w.deploymentChild root).key) = [o] := by
  have hchild : w.deploymentChild root ∈ s.children root caps := by
    have hmem : w.deploymentChild root ∈ s.servingDeployments root caps := by
      rw [s.servingDeployments_eq]
      exact List.mem_map_of_mem hw
    exact (List.mem_filter.mp hmem).1
  have hkey : (w.deploymentChild root).key ∈ observations.map (·.key) :=
    h.mem_iff.mpr (List.mem_map_of_mem (List.mem_filter.mpr ⟨hchild, rfl⟩))
  obtain ⟨o, ho⟩ := filter_key_of_nodup (h.nodup_iff.mpr (s.tracked_nodup root caps)) hkey
  refine ⟨o, ?_, ho⟩
  -- all that is observed is in the namespace of the root, so that kind and name tell the key
  have htold : ∀ o ∈ observations, (decide (o.key.kind = .deployment) && decide
      (o.key.name = w.deployment)) = decide (o.key = (w.deploymentChild root).key) := by
    intro o ho
    obtain ⟨c, hc, hc'⟩ := List.mem_map.mp (h.mem_iff.mp (List.mem_map_of_mem ho))
    have hns : o.key.ns = root.ns := by
      rw [← hc']
      exact s.children_home root caps c (List.mem_filter.mp hc).1
    obtain ⟨⟨kind, ns, name⟩, desired, replicas, ready⟩ := o
    obtain rfl : ns = root.ns := hns
    rw [← Bool.decide_and]
    refine decide_eq_decide.mpr ?_
    show kind = .deployment ∧ name = w.deployment
      ↔ (⟨kind, root.ns, name⟩ : Key) = ⟨.deployment, root.ns, w.deployment⟩
    simp
  unfold observed?
  rw [← List.head?_filter, List.filter_congr htold, ho]
  rfl

/-- What is added up in the summary is the total over the serving deployments, up to the range of
    the numbers in a status. -/
theorem Spec.Observed.sum_eq (h : s.Observed root caps observations)
    (count : Observation → Int32) :
    (((s.workloads root).filterMap fun w => observed? observations w.deployment).map count).sum
      = Int32.ofInt (total count observations (s.servingDeployments root caps)) := by
  rw [s.servingDeployments_eq]
  -- each workload adds one observation on either side
  have hseen := fun w (hw : w ∈ s.workloads root) => h.seen hw
  unfold total
  generalize s.workloads root = ws at hseen ⊢
  induction ws with
  | nil => rfl
  | cons w ws ih =>
    obtain ⟨o, hfound, honce⟩ := hseen w List.mem_cons_self
    have hrest := ih fun v hv => hseen v (List.mem_cons_of_mem _ hv)
    have hcons : (w :: ws).filterMap (fun w => observed? observations w.deployment)
        = o :: ws.filterMap fun w => observed? observations w.deployment :=
      List.filterMap_cons_some hfound
    rw [hcons, List.map_cons, List.sum_cons, hrest, List.map_cons, List.map_cons, List.sum_cons,
      honce, Int32.ofInt_add, List.map_singleton, List.sum_singleton, Int32.ofInt_toInt]

end Simulator

/-! ## §4. Services and their addresses -/

/-- The child is a service that has one port. -/
def Child.ListensOn (c : Child) (port : Int32) : Prop :=
  ∃ v : Service, c.body = .service v ∧ v.ports.map (·.port) = [port]

/-- The address of a port of a child inside the cluster. -/
def Child.address (c : Child) (port : Int32) : String :=
  "http://" ++ c.name ++ "." ++ c.ns ++ ".svc.cluster.local" ++ ":" ++ toString port.toInt

/-- The service `c`, which has one port, is built with the deployment `d`: it comes right after
    `d`, and sends requests to its pods. -/
structure Child.BuiltWith (cs : List Child) (d c : Child) (port : Int32) : Prop where
  next : ∃ before after, cs = before ++ d :: c :: after
  listens : c.ListensOn port
  pods : ∃ (e : Deployment) (v : Service), d.body = .deployment e ∧ c.body = .service v ∧
    v.selector = e.podLabels

namespace Simulator

variable {root : Root} {caps : Capabilities} {s : Spec}

theorem url_eq (c : Child) (port : Int32) : url c.ns ⟨c.name, port⟩ = c.address port := by
  unfold url Child.address Naming.host
  simp only [String.append_assoc]

theorem Workload.builtWith {w : Workload} (hw : w ∈ s.workloads root) :
    Child.BuiltWith (s.children root caps) (w.deploymentChild root) (w.serviceChild root) w.port where
  next := by
    obtain ⟨ws, vs, hsplit⟩ := List.append_of_mem hw
    refine ⟨s.pickerChildren root ++ s.gatewayChildren root ++ ws.flatMap (·.children root),
      vs.flatMap (·.children root) ++ s.policyChildren root caps, ?_⟩
    unfold Spec.children Spec.workloadChildren
    rw [hsplit, List.flatMap_append, List.flatMap_cons, w.children_eq]
    simp only [List.append_assoc, List.cons_append, List.nil_append]
  listens := ⟨_, rfl, rfl⟩
  pods := ⟨_, _, rfl, rfl, rfl⟩

/-- The deployment that takes requests, by its role. -/
def Spec.servingDeployment? (root : Root) (caps : Capabilities) (s : Spec) : Option Child :=
  ((s.servingDeployments root caps).find? fun d => d.role? = some decodeStage).or
    ((s.servingDeployments root caps).find? fun d => d.role? = some prefillStage)

/-- The service that takes requests is built with that deployment. -/
theorem Spec.serving_builtWith (root : Root) (caps : Capabilities) (s : Spec) :
    ∃ d c port, s.servingDeployment? root caps = some d ∧
      Child.BuiltWith (s.children root caps) d c port ∧ s.serving root = ⟨c.name, port⟩ := by
  obtain ⟨w, hw, hserving, hfound⟩ := s.serving_eq root
  refine ⟨w.deploymentChild root, w.serviceChild root, w.port, ?_, w.builtWith hw, hserving⟩
  -- a role is sought among deployments as a stage is sought among workloads
  have hrole (stage : String) : (s.servingDeployments root caps).find?
      (fun d => d.role? = some stage)
      = ((s.workloads root).find? fun w => w.stage = stage).map (·.deploymentChild root) := by
    rw [s.servingDeployments_eq, List.find?_map]
    refine congrArg (Option.map _) (congrArg (fun p => List.find? p _) ?_)
    funext w
    have hlabel : (w.deploymentChild root).role? = some w.stage := w.labels_role root
    simp [hlabel]
  unfold servingDeployment?
  rw [hrole, hrole, ← Option.map_or, hfound]
  rfl

/-! ## §5. The summary -/

/-- The summary in a status agrees with a build and with what was observed of it.  All else in the
    status is left alone. -/
structure Spec.Agrees (root : Root) (caps : Capabilities) (s : Spec)
    (observations : List Observation) (before after : Status) : Prop where
  replicas : after.replicas.toInt
    = total (·.replicas) observations (s.servingDeployments root caps)
  readyReplicas : after.readyReplicas.toInt
    = total (·.ready) observations (s.servingDeployments root caps)
  /-- There is one address for each serving deployment, that of the service built with it. -/
  endpoints : List.Forall₂ (fun d text => ∃ c port,
      Child.BuiltWith (s.children root caps) d c port ∧ text = c.address port)
    (s.servingDeployments root caps) after.endpoints
  noGateway : s.gatewayServices root caps = [] → after.gatewayUrl = ""
  gateway : ∀ c, (s.gatewayServices root caps).head? = some c →
    ∃ port, c.ListensOn port ∧ after.gatewayUrl = c.address port
  conditions : after.conditions = before.conditions

/-- A whole number that a status can hold. -/
def InStatus (n : Int) : Prop := Int32.minValue.toInt ≤ n ∧ n ≤ Int32.maxValue.toInt

theorem toInt_of_inStatus {n : Int} (h : InStatus n) : (Int32.ofInt n).toInt = n :=
  Int32.toInt_ofInt_of_le h.1 (Int.lt_add_one_of_le h.2)

/-- For any spec, with defaults or without, and any capabilities: the summary of what was observed
    of a build counts its serving deployments, each of them once, and gives the addresses of their
    services and that of the first gateway, if it can hold the totals.  The service that takes
    requests is the one built with the decode deployment, or else with the prefill deployment. -/
theorem Spec.summarize_agrees {root : Root} {caps : Capabilities} {s : Spec}
    {observations : List Observation} (observed : s.Observed root caps observations)
    (replicas : InStatus (total (·.replicas) observations (s.servingDeployments root caps)))
    (ready : InStatus (total (·.ready) observations (s.servingDeployments root caps)))
    (status : Status) :
    s.Agrees root caps observations status (s.summarize root observations status) ∧
      (∀ d ∈ s.servingDeployments root caps,
        ∃ o, observations.filter (fun o => o.key = d.key) = [o]) ∧
      ∃ d c port, s.servingDeployment? root caps = some d ∧
        Child.BuiltWith (s.children root caps) d c port ∧ s.serving root = ⟨c.name, port⟩ := by
  refine ⟨?agrees, ?once, s.serving_builtWith root caps⟩
  case once =>
    intro d hd
    rw [s.servingDeployments_eq] at hd
    obtain ⟨w, hw, rfl⟩ := List.mem_map.mp hd
    obtain ⟨o, _, ho⟩ := observed.seen hw
    exact ⟨o, ho⟩
  case agrees =>
    have hgateways := s.gatewayServices_eq root caps
    refine ⟨?replicas, ?ready, ?endpoints, ?noGateway, ?gateway, rfl⟩
    case replicas =>
      unfold summarize
      dsimp only
      rw [observed.sum_eq]
      exact toInt_of_inStatus replicas
    case ready =>
      unfold summarize
      dsimp only
      rw [observed.sum_eq]
      exact toInt_of_inStatus ready
    case endpoints =>
      unfold summarize
      rw [s.servingDeployments_eq, List.forall₂_map_left_iff, List.forall₂_map_right_iff,
        List.forall₂_same]
      intro w hw
      exact ⟨w.serviceChild root, w.port, w.builtWith hw, url_eq (w.serviceChild root) w.port⟩
    case noGateway =>
      intro hnone
      rw [hgateways, List.map_eq_nil_iff] at hnone
      unfold summarize
      rw [hnone]
      rfl
    case gateway =>
      intro c hc
      rw [hgateways, List.head?_map] at hc
      obtain ⟨p, hp, rfl⟩ := Option.map_eq_some_iff.mp hc
      refine ⟨p.config.port, ⟨_, rfl, rfl⟩, ?_⟩
      unfold summarize
      rw [hp]
      exact url_eq (p.serviceChild root) p.config.port

/-- A SimulatorDeployment in two stages, with a picker and both gateways. -/
def splitSpec : Spec := Spec.withDefaults "sim"
  { picker := some { enabled := true }
    prefill := some { enabled := true, replicas := 2 }
    decode := some { enabled := true, replicas := 3 }
    gateways := some
      { enabled := true
        standard := some { enabled := true }
        istio := some { enabled := true } } }

/-- Its root. -/
def splitRoot : Root := ⟨.simulatorDeployment, "sim", "default", "u-1"⟩

/-- What is observed of its five deployments. -/
def splitObservations : List Observation :=
  [⟨⟨.deployment, "default", "sim-sim-epp"⟩, some 1, 1, 1⟩,
    ⟨⟨.deployment, "default", "sim-sim-gateway"⟩, some 1, 1, 1⟩,
    ⟨⟨.deployment, "default", "sim-sim-gateway-istio"⟩, some 1, 1, 0⟩,
    ⟨⟨.deployment, "default", "ms-sim-sim-prefill"⟩, some 2, 2, 1⟩,
    ⟨⟨.deployment, "default", "ms-sim-sim-decode"⟩, some 3, 3, 3⟩]

theorem summarize_agrees_split :
    splitSpec.Observed splitRoot {} splitObservations ∧
      total (·.replicas) splitObservations (splitSpec.servingDeployments splitRoot {}) = 5 ∧
      total (·.ready) splitObservations (splitSpec.servingDeployments splitRoot {}) = 4 ∧
      splitSpec.Agrees splitRoot {} splitObservations {}
        (splitSpec.summarize splitRoot splitObservations {}) := by
  have observed : splitSpec.Observed splitRoot {} splitObservations := by
    unfold Spec.Observed
    decide +kernel
  have hreplicas : total (·.replicas) splitObservations
      (splitSpec.servingDeployments splitRoot {}) = 5 := by decide +kernel
  have hready : total (·.ready) splitObservations
      (splitSpec.servingDeployments splitRoot {}) = 4 := by decide +kernel
  have hagrees := Spec.summarize_agrees observed (hreplicas ▸ ⟨by decide, by decide⟩)
    (hready ▸ ⟨by decide, by decide⟩) {}
  exact ⟨observed, hreplicas, hready, hagrees.1⟩

end Simulator

end Converge
