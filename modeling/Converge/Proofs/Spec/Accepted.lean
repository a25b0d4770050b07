/-
  Converge.Proofs.Spec.Accepted — which specs are accepted once they have their defaults.

  Defaulting comes before validation, so that a field may be left at zero or empty.  The numbers
  of a spec are read off its wire form: whatever block a number is in, and whether or not the
  block is enabled, it is there.  A spec is accepted if and only if none of these is below zero,
  those that are ports are not beyond the last port, and texts with a choice of values are empty or
  one of them; the namespace of the simulators has no default.

  Main statements:
    * `Install.Spec.valid_withDefaults_iff`, `Simulator.Spec.valid_withDefaults_iff` — validity
      with defaults, read off the spec without them.
    * `RootSpec.validate_withDefaults_iff` — acceptance for either kind of spec.
-/
import Converge.Proofs.Spec.Valid

namespace Converge

/-! ## §1. The numbers of a wire form -/

namespace Json

mutual

/-- The whole numbers at any depth of the member `k`, each with the name of the member it is in. -/
@[simp] def numbers (k : String) : Json → List (String × Int)
  | .int n => [(k, n)]
  | .arr xs => numbersOfItems k xs
  | .obj ms => numbersOfMembers ms
  | .null | .bool _ | .double _ | .str _ => []
termination_by structural v => v

/-- The whole numbers of the items of the member `k`. -/
@[simp] def numbersOfItems (k : String) : List Json → List (String × Int)
  | [] => []
  | v :: xs => numbers k v ++ numbersOfItems k xs
termination_by structural xs => xs

/-- The whole numbers of members. -/
@[simp] def numbersOfMembers : List (String × Json) → List (String × Int)
  | [] => []
  | (k, v) :: ms => numbers k v ++ numbersOfMembers ms
termination_by structural ms => ms

end

variable {α : Type} {f : α → Json} (k : String)

@[simp] theorem numbers_ofInt32 (n : Int32) : numbers k (ofInt32 n) = [(k, n.toInt)] := rfl

@[simp] theorem numbersOfMembers_append (ms ns : List (String × Json)) :
    numbersOfMembers (ms ++ ns) = numbersOfMembers ms ++ numbersOfMembers ns := by
  induction ms with
  | nil => rfl
  | cons m ms ih => simp only [List.cons_append, numbersOfMembers, ih, List.append_assoc]

@[simp] theorem numbersOfMembers_memberOf (o : Option α) :
    numbersOfMembers (memberOf k f o) = o.toList.flatMap fun v => numbers k (f v) := by
  cases o <;> simp [memberOf]

@[simp] theorem numbersOfMembers_memberIf (keep : Bool) (v : Json) :
    numbersOfMembers (memberIf keep k v) = if keep then numbers k v else [] := by
  cases keep <;> simp [memberIf]

@[simp] theorem numbersOfMembers_textMember (s : String) :
    numbersOfMembers (textMember k s) = [] := by
  simp [textMember]

@[simp] theorem numbersOfItems_map (xs : List α) :
    numbersOfItems k (xs.map f) = xs.flatMap fun x => numbers k (f x) := by
  induction xs with
  | nil => rfl
  | cons x xs ih => simp [ih]

@[simp] theorem flatMap_none {β : Type} (xs : List α) : xs.flatMap (fun _ => ([] : List β)) = [] :=
  List.flatMap_eq_nil_iff.mpr fun _ _ => rfl

@[simp] theorem numbersOfMembers_listMember (xs : List α) :
    numbersOfMembers (listMember k f xs) = xs.flatMap fun x => numbers k (f x) := by
  cases xs <;> simp [listMember]

@[simp] theorem numbers_ofTexts (m : Table String String) : numbers k (ofTexts m) = [] := by
  show numbersOfMembers (m.map _) = []
  induction m with
  | nil => rfl
  | cons e m ih => simp [ih]

/-- The members that hold ports. -/
def portNames : List String := ["port", "targetPort", "listenerPort"]

/-- A number that the member may hold before defaulting; zero stands for no number. -/
structure Settable (e : String × Int) : Prop where
  natural : 0 ≤ e.2
  port : e.1 ∈ portNames → e.2 ≤ 65535

theorem settable_count {k : String} {n : Int32} (count : k ∉ portNames) :
    Settable (k, n.toInt) ↔ 0 ≤ n := by
  rw [Int32.le_iff_toInt_le]
  exact ⟨fun h => h.natural, fun h => ⟨h, fun port => absurd port count⟩⟩

theorem settable_port {k : String} {n : Int32} (port : k ∈ portNames) :
    Settable (k, n.toInt) ↔ 0 ≤ n ∧ n ≤ 65535 := by
  rw [Int32.le_iff_toInt_le, Int32.le_iff_toInt_le]
  exact ⟨fun h => ⟨h.natural, h.port port⟩, fun h => ⟨h.1, fun _ => h.2⟩⟩

end Json

open Json (numbers portNames Settable settable_count settable_port)

/-! ## §2. The numbers of a spec -/

section Numbers

variable (k : String)

@[simp] theorem PoolLimits.numbers_toJson (p : PoolLimits) :
    numbers k p.toJson = [("http1MaxPendingRequests", p.pendingRequests.toInt),
      ("maxRequestsPerConnection", p.requestsPerConnection.toInt)] := by
  simp [toJson]

@[simp] theorem Balancing.numbers_toJson (b : Balancing) :
    numbers k b.toJson = b.pool.toList.flatMap fun p => numbers "connectionPool" p.toJson := by
  simp [toJson]

@[simp] theorem ResourceClaim.numbers_toJson (c : ResourceClaim) : numbers k c.toJson = [] := by
  simp [toJson]

@[simp] theorem Resources.numbers_toJson (r : Resources) : numbers k r.toJson = [] := by
  simp [toJson]

namespace Install

@[simp] theorem Proxy.numbers_toJson (p : Proxy) :
    numbers k p.toJson = [("port", p.port.toInt), ("targetPort", p.targetPort.toInt)] := by
  simp [toJson]

@[simp] theorem Picker.numbers_toJson (p : Picker) :
    numbers k p.toJson = [("port", p.port.toInt), ("replicas", p.replicas.toInt),
      ("verbosity", p.verbosity.toInt)] := by
  simp [toJson]

@[simp] theorem Gateway.numbers_toJson (g : Gateway) :
    numbers k g.toJson = [("listenerPort", g.listenerPort.toInt)] := by
  simp [toJson]

@[simp] theorem ParentGateway.numbers_toJson (p : ParentGateway) : numbers k p.toJson = [] := by
  simp [toJson]

@[simp] theorem InferencePool.numbers_toJson (p : InferencePool) :
    numbers k p.toJson = [("port", p.port.toInt)] := by
  simp [toJson]

@[simp] theorem Routing.numbers_toJson (r : Routing) :
    numbers k r.toJson = r.pool.toList.flatMap fun p => numbers "inferencePool" p.toJson := by
  simp [toJson]

/-- All numbers of a spec. -/
theorem Spec.numbers_toJson (s : Spec) : numbers k s.toJson
    = s.balancing.toList.flatMap (fun b => numbers "destinationRule" b.toJson)
      ++ s.picker.toList.flatMap (fun p => numbers "epp" p.toJson)
      ++ s.gateway.toList.flatMap (fun g => numbers "gateway" g.toJson)
      ++ numbers "proxyService" s.proxy.toJson
      ++ s.routing.toList.flatMap (fun r => numbers "routing" r.toJson) := by
  simp [toJson]

end Install

namespace Simulator

@[simp] theorem Serving.numbers_toJson (s : Serving) :
    numbers k s.toJson = [("port", s.port.toInt)] := by
  simp [toJson]

@[simp] theorem Picker.numbers_toJson (p : Picker) :
    numbers k p.toJson = [("port", p.port.toInt), ("replicas", p.replicas.toInt)] := by
  simp [toJson]

@[simp] theorem Stage.numbers_toJson (s : Stage) :
    numbers k s.toJson = [("port", s.port.toInt), ("replicas", s.replicas.toInt)] := by
  simp [toJson]

@[simp] theorem GatewayInstance.numbers_toJson (g : GatewayInstance) :
    numbers k g.toJson = [("port", g.port.toInt), ("replicas", g.replicas.toInt)] := by
  simp [toJson]

@[simp] theorem Gateways.numbers_toJson (g : Gateways) : numbers k g.toJson
    = g.istio.toList.flatMap (fun i => numbers "istio" i.toJson)
      ++ g.standard.toList.flatMap fun i => numbers "standard" i.toJson := by
  simp [toJson]

/-- All numbers of a spec. -/
theorem Spec.numbers_toJson (s : Spec) : numbers k s.toJson
    = s.decode.toList.flatMap (fun t => numbers "decode" t.toJson)
      ++ s.picker.toList.flatMap (fun p => numbers "epp" p.toJson)
      ++ s.gateways.toList.flatMap (fun g => numbers "inferenceGateway" g.toJson)
      ++ s.balancing.toList.flatMap (fun b => numbers "loadBalancing" b.toJson)
      ++ s.prefill.toList.flatMap (fun t => numbers "prefill" t.toJson)
      ++ [("replicas", s.replicas.toInt)]
      ++ numbers "service" s.service.toJson := by
  simp [toJson]

end Simulator

end Numbers

/-! ## §3. Fields with their defaults -/

theorem orText_mem_iff {s d : String} {allowed : List String} (hd : d ∈ allowed) :
    orText s d ∈ allowed ↔ s = "" ∨ s ∈ allowed := by
  unfold orText
  by_cases hempty : s = ""
  · simp [hempty, hd]
  · simp [hempty]

theorem orNumber_pos_iff {n d : Int32} (hd : 0 < d) {k : String} (count : k ∉ portNames) :
    0 < orNumber n d ↔ Settable (k, n.toInt) := by
  rw [settable_count count]
  unfold orNumber
  split
  · grind
  · grind

theorem isPort_orNumber_iff {n d : Int32} (hd : IsPort d) {k : String} (port : k ∈ portNames) :
    IsPort (orNumber n d) ↔ Settable (k, n.toInt) := by
  rw [settable_port port]
  unfold IsPort orNumber at *
  split
  · grind
  · grind

theorem zero_or_isPort_iff {n : Int32} {k : String} (port : k ∈ portNames) :
    n = 0 ∨ IsPort n ↔ Settable (k, n.toInt) := by
  rw [settable_port port]
  unfold IsPort
  grind

theorem isPort_servingPort : IsPort servingPort := by decide

/-! ## §4. Blocks with their defaults -/

variable (k : String)

theorem forall_mem_map_iff {α β : Type} {f : α → β} {P : β → Prop} {Q : α → Prop} {o : Option α}
    (each : ∀ a, P (f a) ↔ Q a) : (∀ b ∈ o.map f, P b) ↔ ∀ a ∈ o, Q a := by
  cases o <;> simp [each]

theorem Balancing.valid_withDefaults_iff (b : Balancing) :
    b.withDefaults.Valid ↔
      (b.algorithm = "" ∨ b.algorithm ∈ algorithms) ∧ ∀ e ∈ numbers k b.toJson, Settable e := by
  have hpool (p : PoolLimits) :
      0 < orNumber p.pendingRequests 1 ∧ 0 < orNumber p.requestsPerConnection 1 ↔
        ∀ e ∈ numbers "connectionPool" p.toJson, Settable e := by
    rw [PoolLimits.numbers_toJson, List.forall_mem_cons, List.forall_mem_singleton]
    exact and_congr (orNumber_pos_iff (by decide) (by decide))
      (orNumber_pos_iff (by decide) (by decide))
  rw [valid_iff, numbers_toJson]
  refine and_congr (orText_mem_iff (by decide)) ?_
  simp only [List.forall_mem_flatMap, Option.mem_toList, ← hpool]
  unfold withDefaults
  obtain ⟨enabled, algorithm, pool⟩ := b
  cases pool with
  | some p => simp
  | none =>
    -- the limits of an added pool are one
    cases enabled <;> simp [orNumber]

/-! ## §5. SchedulerInstalls -/

namespace Install

theorem Proxy.valid_withDefaults_iff (root : String) (p : Proxy) :
    (p.withDefaults root).Valid ↔ ∀ e ∈ numbers k p.toJson, Settable e := by
  have hport : IsPort (p.withDefaults root).port ↔ Settable ("port", p.port.toInt) :=
    isPort_orNumber_iff isPort_servingPort (by decide)
  -- its default is not a constant but the port, which is valid only if the spec's port was
  have htarget (h : IsPort (p.withDefaults root).port) :
      IsPort (p.withDefaults root).targetPort ↔ Settable ("targetPort", p.targetPort.toInt) :=
    isPort_orNumber_iff h (by decide)
  rw [numbers_toJson, valid_iff, List.forall_mem_cons, List.forall_mem_singleton]
  exact (and_congr_right htarget).trans (and_congr_left fun _ => hport)

theorem Picker.valid_withDefaults_iff (root ns : String) (p : Picker) :
    (p.withDefaults root ns).Valid ↔ ∀ e ∈ numbers k p.toJson, Settable e := by
  have hreplicas :
      0 < (p.withDefaults root ns).replicas ↔ Settable ("replicas", p.replicas.toInt) :=
    orNumber_pos_iff (by decide) (by decide)
  have hport : IsPort (p.withDefaults root ns).port ↔ Settable ("port", p.port.toInt) :=
    isPort_orNumber_iff (by decide) (by decide)
  have hverbosity :
      0 < (p.withDefaults root ns).verbosity ↔ Settable ("verbosity", p.verbosity.toInt) :=
    orNumber_pos_iff (by decide) (by decide)
  rw [numbers_toJson, valid_iff, List.forall_mem_cons, List.forall_mem_cons,
    List.forall_mem_singleton, hreplicas, hport, hverbosity]
  exact and_left_comm

theorem Gateway.isPort_withDefaults_iff (root : String) (g : Gateway) :
    IsPort (g.withDefaults root).listenerPort ↔ ∀ e ∈ numbers k g.toJson, Settable e := by
  rw [numbers_toJson, List.forall_mem_singleton]
  exact isPort_orNumber_iff (by decide) (by decide)

theorem Routing.valid_withDefaults_iff (c : RouteContext) (r : Routing) :
    (r.withDefaults c).Valid ↔
      (r.backendType = "" ∨ r.backendType ∈ [serviceBackend, poolBackend]) ∧
        ∀ e ∈ numbers k r.toJson, Settable e := by
  have hport (p : InferencePool) :
      p.port = 0 ∨ IsPort p.port ↔ ∀ e ∈ numbers "inferencePool" p.toJson, Settable e := by
    rw [InferencePool.numbers_toJson, List.forall_mem_singleton]
    exact zero_or_isPort_iff (by decide)
  rw [valid_iff, numbers_toJson]
  refine and_congr (orText_mem_iff (by decide)) ?_
  simp only [List.forall_mem_flatMap, Option.mem_toList, ← hport]
  unfold withDefaults
  dsimp only
  split
  · -- an added pool has no port
    cases r.pool <;> simp
  · rfl

/-- A spec that is accepted once it has its defaults. -/
@[mk_iff]
structure Spec.Acceptable (s : Spec) : Prop where
  /-- Nothing stands in for the namespace of the simulators. -/
  placed : ∃ c ∈ s.simulatorNamespace.toList, Text.isBlank c = false
  numbers : ∀ e ∈ numbers "" s.toJson, Settable e
  backendType : ∀ r ∈ s.routing, r.backendType = "" ∨ r.backendType ∈ [serviceBackend, poolBackend]
  algorithm : ∀ b ∈ s.balancing, b.algorithm = "" ∨ b.algorithm ∈ Balancing.algorithms

theorem isBlankText_eq_false {s : String} :
    Text.isBlankText s = false ↔ ∃ c ∈ s.toList, Text.isBlank c = false := by
  unfold Text.isBlankText
  rw [List.all_eq_false]
  simp only [Bool.not_eq_true]

theorem Spec.valid_withDefaults_iff (root ns : String) (s : Spec) :
    (s.withDefaults root ns).Valid ↔ s.Acceptable := by
  have hproxy := s.proxy.valid_withDefaults_iff "proxyService" root
  have hpicker : (∀ p ∈ (s.withDefaults root ns).picker, p.Valid) ↔
      ∀ p ∈ s.picker, ∀ e ∈ numbers "epp" p.toJson, Settable e :=
    forall_mem_map_iff fun p => p.valid_withDefaults_iff "epp" root s.simulatorNamespace
  have hgateway : (∀ g ∈ (s.withDefaults root ns).gateway, IsPort g.listenerPort) ↔
      ∀ g ∈ s.gateway, ∀ e ∈ numbers "gateway" g.toJson, Settable e :=
    forall_mem_map_iff fun g => g.isPort_withDefaults_iff "gateway" root
  have hrouting : (∀ r ∈ (s.withDefaults root ns).routing, r.Valid) ↔ ∀ r ∈ s.routing,
      (r.backendType = "" ∨ r.backendType ∈ [serviceBackend, poolBackend]) ∧
        ∀ e ∈ numbers "routing" r.toJson, Settable e :=
    forall_mem_map_iff fun r => r.valid_withDefaults_iff "routing" _
  have hbalancing : (∀ b ∈ (s.withDefaults root ns).balancing, b.Valid) ↔ ∀ b ∈ s.balancing,
      (b.algorithm = "" ∨ b.algorithm ∈ Balancing.algorithms) ∧
        ∀ e ∈ numbers "destinationRule" b.toJson, Settable e :=
    forall_mem_map_iff fun b => b.valid_withDefaults_iff "destinationRule"
  rw [valid_iff, acceptable_iff, hpicker, hgateway, hrouting, hbalancing, isBlankText_eq_false]
  simp only [numbers_toJson, List.forall_mem_append, List.forall_mem_flatMap, Option.mem_toList]
  -- both sides now speak of the same blocks: one block by block, the other of all numbers first
  constructor
  · rintro ⟨placed, proxy, picker, gateway, routing, balancing⟩
    exact ⟨placed, ⟨⟨⟨⟨fun b hb => (balancing b hb).2, picker⟩, gateway⟩, hproxy.mp proxy⟩,
      fun r hr => (routing r hr).2⟩, fun r hr => (routing r hr).1, fun b hb => (balancing b hb).1⟩
  · rintro ⟨placed, ⟨⟨⟨⟨balancing, picker⟩, gateway⟩, proxy⟩, routing⟩, backendType, algorithm⟩
    exact ⟨placed, hproxy.mpr proxy, picker, gateway, fun r hr => ⟨backendType r hr, routing r hr⟩,
      fun b hb => ⟨algorithm b hb, balancing b hb⟩⟩

end Install

/-! ## §6. SimulatorDeployments -/

namespace Simulator

theorem scaled_iff_settable {replicas port r p : Int32} (hr : 0 < r) (hp : IsPort p) :
    Scaled (orNumber replicas r) (orNumber port p) ↔
      ∀ e ∈ [("port", port.toInt), ("replicas", replicas.toInt)], Settable e := by
  rw [scaled_iff, List.forall_mem_cons, List.forall_mem_singleton, and_comm]
  exact and_congr (isPort_orNumber_iff hp (by decide)) (orNumber_pos_iff hr (by decide))

theorem Picker.scaled_withDefaults_iff (p : Picker) :
    Scaled p.withDefaults.replicas p.withDefaults.port ↔ ∀ e ∈ numbers k p.toJson, Settable e := by
  rw [numbers_toJson]
  exact scaled_iff_settable (by decide) (by decide)

theorem Stage.scaled_withDefaults_iff (image : String) (t : Stage) :
    Scaled (t.withDefaults image).replicas (t.withDefaults image).port ↔
      ∀ e ∈ numbers k t.toJson, Settable e := by
  rw [numbers_toJson]
  exact scaled_iff_settable (by decide) isPort_servingPort

theorem GatewayInstance.scaled_withDefaults_iff (image : String) (g : GatewayInstance) :
    Scaled (g.withDefaults image).replicas (g.withDefaults image).port ↔
      ∀ e ∈ numbers k g.toJson, Settable e := by
  rw [numbers_toJson]
  exact scaled_iff_settable (by decide) (by decide)

theorem Gateways.valid_withDefaults_iff (g : Gateways) :
    g.withDefaults.Valid ↔ ∀ e ∈ numbers k g.toJson, Settable e := by
  rw [valid_iff, numbers_toJson]
  simp only [List.forall_mem_append, List.forall_mem_flatMap, Option.mem_toList]
  rw [and_comm]
  exact and_congr (forall_mem_map_iff (GatewayInstance.scaled_withDefaults_iff _ _))
    (forall_mem_map_iff (GatewayInstance.scaled_withDefaults_iff _ _))

/-- A spec that is accepted once it has its defaults. -/
@[mk_iff]
structure Spec.Acceptable (s : Spec) : Prop where
  numbers : ∀ e ∈ numbers "" s.toJson, Settable e
  serviceType : s.service.type = "" ∨ s.service.type ∈ serviceTypes
  algorithm : ∀ b ∈ s.balancing, b.algorithm = "" ∨ b.algorithm ∈ Balancing.algorithms

theorem Serving.valid_withDefaults_iff (root : String) (s : Serving) :
    (s.withDefaults root).Valid ↔
      (s.type = "" ∨ s.type ∈ serviceTypes) ∧ ∀ e ∈ numbers k s.toJson, Settable e := by
  rw [valid_iff, numbers_toJson, List.forall_mem_singleton, and_comm]
  exact and_congr (orText_mem_iff (by decide)) (isPort_orNumber_iff isPort_servingPort (by decide))

theorem Spec.valid_withDefaults_iff (root : String) (s : Spec) :
    (s.withDefaults root).Valid ↔ s.Acceptable := by
  have hreplicas : 0 < (s.withDefaults root).replicas ↔ Settable ("replicas", s.replicas.toInt) :=
    orNumber_pos_iff (by decide) (by decide)
  have hservice := s.service.valid_withDefaults_iff "service" root
  have hpicker : (∀ p ∈ (s.withDefaults root).picker, Scaled p.replicas p.port) ↔
      ∀ p ∈ s.picker, ∀ e ∈ numbers "epp" p.toJson, Settable e :=
    forall_mem_map_iff fun p => p.scaled_withDefaults_iff "epp"
  have hprefill : (∀ t ∈ (s.withDefaults root).prefill, Scaled t.replicas t.port) ↔
      ∀ t ∈ s.prefill, ∀ e ∈ numbers "prefill" t.toJson, Settable e :=
    forall_mem_map_iff fun t => t.scaled_withDefaults_iff "prefill" _
  have hdecode : (∀ t ∈ (s.withDefaults root).decode, Scaled t.replicas t.port) ↔
      ∀ t ∈ s.decode, ∀ e ∈ numbers "decode" t.toJson, Settable e :=
    forall_mem_map_iff fun t => t.scaled_withDefaults_iff "decode" _
  have hgateways : (∀ g ∈ (s.withDefaults root).gateways, g.Valid) ↔
      ∀ g ∈ s.gateways, ∀ e ∈ numbers "inferenceGateway" g.toJson, Settable e :=
    forall_mem_map_iff fun g => g.valid_withDefaults_iff "inferenceGateway"
  have hbalancing : (∀ b ∈ (s.withDefaults root).balancing, b.Valid) ↔ ∀ b ∈ s.balancing,
      (b.algorithm = "" ∨ b.algorithm ∈ Balancing.algorithms) ∧
        ∀ e ∈ numbers "loadBalancing" b.toJson, Settable e :=
    forall_mem_map_iff fun b => b.valid_withDefaults_iff "loadBalancing"
  rw [valid_iff, acceptable_iff, hreplicas, hpicker, hprefill, hdecode, hgateways, hbalancing]
  simp only [numbers_toJson, List.forall_mem_append, List.forall_mem_flatMap, Option.mem_toList,
    List.forall_mem_singleton]
  -- as above, the numbers are sorted by the blocks they are in
  constructor
  · rintro ⟨replicas, service, picker, prefill, decode, gateways, balancing⟩
    obtain ⟨type, service⟩ := hservice.mp service
    exact ⟨⟨⟨⟨⟨⟨⟨decode, picker⟩, gateways⟩, fun b hb => (balancing b hb).2⟩, prefill⟩, replicas⟩,
      service⟩, type, fun b hb => (balancing b hb).1⟩
  · rintro ⟨⟨⟨⟨⟨⟨⟨decode, picker⟩, gateways⟩, balancing⟩, prefill⟩, replicas⟩, service⟩, type,
      algorithm⟩
    exact ⟨replicas, hservice.mpr ⟨type, service⟩, picker, prefill, decode, gateways,
      fun b hb => ⟨algorithm b hb, balancing b hb⟩⟩

end Simulator

/-! ## §7. Specs of either kind -/

namespace RootSpec

/-- A spec that is accepted once it has its defaults. -/
def Acceptable : RootSpec → Prop
  | install s => s.Acceptable
  | simulator s => s.Acceptable

/-- A spec is accepted with its defaults if and only if it is acceptable without them: defaulting
    introduces no fault, and validation forgets no field. -/
theorem validate_withDefaults_iff (name ns : String) (s : RootSpec) :
    (s.withDefaults name ns).validate = .ok () ↔ s.Acceptable := by
  cases s with
  | install s => exact Install.Spec.validate_eq_ok.trans (s.valid_withDefaults_iff name ns)
  | simulator s => exact Simulator.Spec.validate_eq_ok.trans (s.valid_withDefaults_iff name)

end RootSpec

end Converge
