/-
  Converge.Proofs.Spec.Growth — what defaulting keeps, and that it is a closure.

  A spec grows when fields that hold their zero value get others; nothing else about it changes.
  Blocks that are not there stay away, but for two: an enabled traffic policy may get a connection
  pool, and a route to an inference pool a reference to one.

  Defaulting is a closure of this order.  A spec grows to what defaulting makes of it, and whatever
  lies between the two has the same defaults.  Fields whose default is taken from another field are
  where this could fail: it does not, since they are filled from what that field is in the end.

  Main statements:
    * `Install.Spec.growsTo_withDefaults`, `Simulator.Spec.growsTo_withDefaults` — specs grow to
      their defaults.
    * `Install.Spec.withDefaults_of_between`, `Simulator.Spec.withDefaults_of_between` — what lies
      between a spec and its defaults has the same defaults.
    * `RootSpec.withDefaults_closed` — both for either kind of spec.
-/
import Converge.RootSpec

namespace Converge

/-! ## §1. Fields -/

section Fields

variable {α : Type} [Inhabited α] {a b : α}

/-- A value persists unless it is the zero value. -/
def Persists (a b : α) : Prop := a = default ∨ b = a

theorem Persists.refl (a : α) : Persists a a := .inr rfl

theorem Persists.antisymm (h : Persists a b) (h' : Persists b a) : b = a := by
  rcases h with rfl | rfl
  · exact h'.elim id Eq.symm
  · rfl

variable {fill : α → α}

/-- Filling in a default lets other values persist. -/
theorem persists_fill (stays : ∀ a, a ≠ default → fill a = a) (a : α) : Persists a (fill a) := by
  by_cases ha : a = default
  · exact .inl ha
  · exact .inr (stays a ha)

/-- Between a value and what it is filled to there are only these two. -/
theorem Persists.fill_eq (h : Persists a b) (stays : ∀ a, a ≠ default → fill a = a)
    (h' : Persists b (fill a)) : fill b = fill a := by
  rcases h with rfl | rfl
  · rcases h' with rfl | hb
    · rfl
    · by_cases hzero : b = default
      · rw [hzero]
      · rw [hb, stays b hzero]
  · rfl

end Fields

theorem orText_of_ne (d s : String) (h : s ≠ "") : orText s d = s := if_neg h

theorem orNumber_of_ne (d n : Int32) (h : n ≠ 0) : orNumber n d = n := if_neg h

theorem persists_orText (s d : String) : Persists s (orText s d) :=
  persists_fill (orText_of_ne d) s

theorem persists_orNumber (n d : Int32) : Persists n (orNumber n d) :=
  persists_fill (orNumber_of_ne d) n

theorem Persists.orText_eq {s t d : String} (h : Persists s t) (h' : Persists t (orText s d)) :
    orText t d = orText s d :=
  h.fill_eq (orText_of_ne d) h'

theorem Persists.orNumber_eq {m n d : Int32} (h : Persists m n)
    (h' : Persists n (orNumber m d)) : orNumber n d = orNumber m d :=
  h.fill_eq (orNumber_of_ne d) h'

/-! ## §2. Blocks -/

section Blocks

variable {α : Type} {R : α → α → Prop} {allowed : Prop} {f : α → α} {o p : Option α}

/-- A block grows if it is there, and is added only where that is allowed. -/
inductive BlockGrows (allowed : Prop) (R : α → α → Prop) : Option α → Option α → Prop
  | absent : BlockGrows allowed R none none
  | present {a b : α} (h : R a b) : BlockGrows allowed R (some a) (some b)
  | added (h : allowed) (b : α) : BlockGrows allowed R none (some b)

theorem BlockGrows.refl (h : ∀ a, R a a) (o : Option α) : BlockGrows allowed R o o := by
  cases o with
  | none => exact .absent
  | some a => exact .present (h a)

theorem blockGrows_map (grows : ∀ a, R a (f a)) (o : Option α) :
    BlockGrows allowed R o (o.map f) := by
  cases o with
  | none => exact .absent
  | some a => exact .present (grows a)

/-- A block between a block and what it is changed to is changed to the same. -/
theorem BlockGrows.map_eq (h : BlockGrows allowed R o p) (h' : BlockGrows allowed R p (o.map f))
    (each : ∀ a b, R a b → R b (f a) → f b = f a) : p.map f = o.map f := by
  cases h with
  | absent => rfl
  | present h =>
    cases h' with
    | present h' => exact congrArg some (each _ _ h h')
  | added _ b => cases h'

end Blocks

/-! ## §3. Traffic policies -/

structure PoolLimits.GrowsTo (p q : PoolLimits) : Prop where
  pendingRequests : Persists p.pendingRequests q.pendingRequests
  requestsPerConnection : Persists p.requestsPerConnection q.requestsPerConnection

/-- An enabled policy may get a connection pool. -/
structure Balancing.GrowsTo (b c : Balancing) : Prop where
  enabled : c.enabled = b.enabled
  algorithm : Persists b.algorithm c.algorithm
  pool : BlockGrows (c.enabled = true) PoolLimits.GrowsTo b.pool c.pool

namespace Balancing

theorem GrowsTo.refl (b : Balancing) : b.GrowsTo b where
  enabled := rfl
  algorithm := .refl _
  pool := .refl (fun _ => ⟨.refl _, .refl _⟩) _

theorem growsTo_withDefaults (b : Balancing) : b.GrowsTo b.withDefaults where
  enabled := rfl
  algorithm := persists_orText _ _
  pool := by
    obtain ⟨enabled, algorithm, pool⟩ := b
    cases pool with
    | some p => exact .present ⟨persists_orNumber _ _, persists_orNumber _ _⟩
    | none =>
      cases enabled with
      | true => exact .added rfl _
      | false => exact .absent

theorem withDefaults_of_between {b c : Balancing} (h : b.GrowsTo c)
    (h' : c.GrowsTo b.withDefaults) : c.withDefaults = b.withDefaults := by
  obtain ⟨enabled, algorithm, pool⟩ := b
  obtain ⟨enabled', algorithm', pool'⟩ := c
  obtain ⟨rfl, halgorithm, hpool⟩ := h
  obtain ⟨_, halgorithm', hpool'⟩ := h'
  have hsame : orText algorithm' "ROUND_ROBIN" = orText algorithm "ROUND_ROBIN" :=
    halgorithm.orText_eq halgorithm'
  unfold withDefaults
  cases hpool with
  | absent => simp only [hsame]
  | present h =>
    cases hpool' with
    | present h' =>
      have hpending := h.pendingRequests.orNumber_eq h'.pendingRequests
      have hrequests := h.requestsPerConnection.orNumber_eq h'.requestsPerConnection
      simp only [hsame, Option.map_some, hpending, hrequests]
  | added on q =>
    -- the pool that was added lies between an empty one and its defaults
    obtain rfl : enabled' = true := on
    cases hpool' with
    | present h' =>
      have hpending : orNumber q.pendingRequests 1 = orNumber 0 1 :=
        Persists.orNumber_eq (.inl rfl) h'.pendingRequests
      have hrequests : orNumber q.requestsPerConnection 1 = orNumber 0 1 :=
        Persists.orNumber_eq (.inl rfl) h'.requestsPerConnection
      simp only [hsame, if_true, Option.map_some, hpending, hrequests]

end Balancing

/-! ## §4. SchedulerInstalls -/

namespace Install

structure Proxy.GrowsTo (p q : Proxy) : Prop where
  name : Persists p.name q.name
  port : Persists p.port q.port
  targetPort : Persists p.targetPort q.targetPort
  selector : Persists p.selector q.selector

namespace Proxy

theorem GrowsTo.refl (p : Proxy) : p.GrowsTo p := ⟨.refl _, .refl _, .refl _, .refl _⟩

/-- A selector that says nothing is filled. -/
theorem selector_of_ne (m : Table String String) (h : m ≠ []) :
    (if m.isEmpty then decodePods else m) = m := by
  cases m with
  | nil => exact absurd rfl h
  | cons e rest => rfl

theorem growsTo_withDefaults (root : String) (p : Proxy) : p.GrowsTo (p.withDefaults root) where
  name := persists_orText _ _
  port := persists_orNumber _ _
  targetPort := persists_orNumber _ _
  selector := persists_fill selector_of_ne _

theorem withDefaults_of_between {root : String} {p q : Proxy} (h : p.GrowsTo q)
    (h' : q.GrowsTo (p.withDefaults root)) : q.withDefaults root = p.withDefaults root := by
  have hname := h.name.orText_eq h'.name
  have hport := h.port.orNumber_eq h'.port
  have htarget := h.targetPort.orNumber_eq h'.targetPort
  have hselector := h.selector.fill_eq selector_of_ne h'.selector
  -- the target port follows the port as it is in the end
  unfold withDefaults
  simp only [hname, hport, htarget, hselector]

end Proxy

structure Picker.GrowsTo (p q : Picker) : Prop where
  enabled : q.enabled = p.enabled
  name : Persists p.name q.name
  replicas : Persists p.replicas q.replicas
  image : Persists p.image q.image
  port : Persists p.port q.port
  verbosity : Persists p.verbosity q.verbosity
  args : q.args = p.args
  poolName : Persists p.poolName q.poolName
  poolNamespace : Persists p.poolNamespace q.poolNamespace
  resources : q.resources = p.resources

namespace Picker

theorem GrowsTo.refl (p : Picker) : p.GrowsTo p :=
  ⟨rfl, .refl _, .refl _, .refl _, .refl _, .refl _, rfl, .refl _, .refl _, rfl⟩

theorem growsTo_withDefaults (root ns : String) (p : Picker) :
    p.GrowsTo (p.withDefaults root ns) where
  enabled := rfl
  name := persists_orText _ _
  replicas := persists_orNumber _ _
  image := persists_orText _ _
  port := persists_orNumber _ _
  verbosity := persists_orNumber _ _
  args := rfl
  poolName := persists_orText _ _
  poolNamespace := persists_orText _ _
  resources := rfl

theorem withDefaults_of_between {root ns : String} {p q : Picker} (h : p.GrowsTo q)
    (h' : q.GrowsTo (p.withDefaults root ns)) :
    q.withDefaults root ns = p.withDefaults root ns := by
  have hname := h.name.orText_eq h'.name
  have hreplicas := h.replicas.orNumber_eq h'.replicas
  have himage := h.image.orText_eq h'.image
  have hport := h.port.orNumber_eq h'.port
  have hverbosity := h.verbosity.orNumber_eq h'.verbosity
  have hpool := h.poolName.orText_eq h'.poolName
  have hns := h.poolNamespace.orText_eq h'.poolNamespace
  unfold withDefaults
  simp only [h.enabled, h.args, h.resources, hname, hreplicas, himage, hport, hverbosity, hpool,
    hns]

end Picker

structure Gateway.GrowsTo (g k : Gateway) : Prop where
  enabled : k.enabled = g.enabled
  name : Persists g.name k.name
  className : Persists g.className k.className
  listenerPort : Persists g.listenerPort k.listenerPort
  listenerProtocol : Persists g.listenerProtocol k.listenerProtocol

namespace Gateway

theorem GrowsTo.refl (g : Gateway) : g.GrowsTo g := ⟨rfl, .refl _, .refl _, .refl _, .refl _⟩

theorem growsTo_withDefaults (root : String) (g : Gateway) : g.GrowsTo (g.withDefaults root) where
  enabled := rfl
  name := persists_orText _ _
  className := persists_orText _ _
  listenerPort := persists_orNumber _ _
  listenerProtocol := persists_orText _ _

theorem withDefaults_of_between {root : String} {g k : Gateway} (h : g.GrowsTo k)
    (h' : k.GrowsTo (g.withDefaults root)) : k.withDefaults root = g.withDefaults root := by
  have hname := h.name.orText_eq h'.name
  have hclass := h.className.orText_eq h'.className
  have hport := h.listenerPort.orNumber_eq h'.listenerPort
  have hprotocol := h.listenerProtocol.orText_eq h'.listenerProtocol
  unfold withDefaults
  simp only [h.enabled, hname, hclass, hport, hprotocol]

end Gateway

structure ParentGateway.GrowsTo (p q : ParentGateway) : Prop where
  name : Persists p.name q.name
  ns : Persists p.ns q.ns

structure InferencePool.GrowsTo (p q : InferencePool) : Prop where
  name : Persists p.name q.name
  ns : Persists p.ns q.ns
  port : q.port = p.port

namespace InferencePool

theorem GrowsTo.antisymm {p q : InferencePool} (h : p.GrowsTo q) (h' : q.GrowsTo p) : q = p := by
  obtain ⟨name, ns, port⟩ := p
  obtain ⟨name', ns', port'⟩ := q
  obtain rfl : name' = name := h.name.antisymm h'.name
  obtain rfl : ns' = ns := h.ns.antisymm h'.ns
  obtain rfl : port' = port := h.port
  rfl

/-- The pool of a route, named as its context has it. -/
def inContext (c : RouteContext) (p : InferencePool) : InferencePool :=
  { p with name := orText p.name c.poolName, ns := orText p.ns c.poolNamespace }

theorem growsTo_inContext (c : RouteContext) (p : InferencePool) : p.GrowsTo (p.inContext c) :=
  ⟨persists_orText _ _, persists_orText _ _, rfl⟩

theorem inContext_of_between {c : RouteContext} {p q : InferencePool} (h : p.GrowsTo q)
    (h' : q.GrowsTo (p.inContext c)) : q.inContext c = p.inContext c := by
  have hname := h.name.orText_eq h'.name
  have hns := h.ns.orText_eq h'.ns
  unfold inContext
  simp only [h.port, hname, hns]

end InferencePool

/-- A route to an inference pool may get a reference to one. -/
structure Routing.GrowsTo (r q : Routing) : Prop where
  enabled : q.enabled = r.enabled
  backendType : Persists r.backendType q.backendType
  pool : BlockGrows (q.backendType = poolBackend) InferencePool.GrowsTo r.pool q.pool
  routeName : Persists r.routeName q.routeName
  parent : r.parent.GrowsTo q.parent

namespace Routing

theorem GrowsTo.refl (r : Routing) : r.GrowsTo r where
  enabled := rfl
  backendType := .refl _
  pool := .refl (fun _ => ⟨.refl _, .refl _, rfl⟩) _
  routeName := .refl _
  parent := ⟨.refl _, .refl _⟩

theorem withDefaults_pool (c : RouteContext) (r : Routing) : (r.withDefaults c).pool =
    if (r.withDefaults c).backendType = poolBackend then some ((r.pool.getD {}).inContext c)
    else r.pool := rfl

theorem growsTo_withDefaults (c : RouteContext) (r : Routing) : r.GrowsTo (r.withDefaults c) where
  enabled := rfl
  backendType := persists_orText _ _
  pool := by
    rw [withDefaults_pool]
    split
    · rename_i hbackend
      cases r.pool with
      | none => exact .added hbackend _
      | some p => exact .present (p.growsTo_inContext c)
    · exact .refl (fun _ => ⟨.refl _, .refl _, rfl⟩) _
  routeName := persists_orText _ _
  parent := ⟨persists_orText _ _, persists_orText _ _⟩

theorem withDefaults_of_between {c : RouteContext} {r q : Routing} (h : r.GrowsTo q)
    (h' : q.GrowsTo (r.withDefaults c)) : q.withDefaults c = r.withDefaults c := by
  have hbackend : (q.withDefaults c).backendType = (r.withDefaults c).backendType :=
    h.backendType.orText_eq h'.backendType
  have hroute : (q.withDefaults c).routeName = (r.withDefaults c).routeName :=
    h.routeName.orText_eq h'.routeName
  have hparent : (q.withDefaults c).parent = (r.withDefaults c).parent := by
    show ParentGateway.mk _ _ = ParentGateway.mk _ _
    rw [h.parent.name.orText_eq h'.parent.name, h.parent.ns.orText_eq h'.parent.ns]
  have hpool : (q.withDefaults c).pool = (r.withDefaults c).pool := by
    have hgrows := h.pool
    have hgrows' := h'.pool
    rw [withDefaults_pool] at hgrows' ⊢
    rw [withDefaults_pool, hbackend]
    split at hgrows'
    · rename_i hpool
      rw [if_pos hpool, if_pos hpool]
      -- a pool that is missing counts as one without a name
      generalize r.pool = a, q.pool = b at hgrows hgrows'
      cases hgrows with
      | absent => rfl
      | present h =>
        cases hgrows' with
        | present h' => exact congrArg some (InferencePool.inContext_of_between h h')
      | added _ b =>
        cases hgrows' with
        | present h' =>
          exact congrArg some
            (InferencePool.inContext_of_between ⟨.inl rfl, .inl rfl, h'.port.symm⟩ h')
    · rename_i hservice
      rw [if_neg hservice, if_neg hservice]
      -- no other route gets a pool, so there is none between
      generalize r.pool = a, q.pool = b at hgrows hgrows'
      cases hgrows with
      | absent => rfl
      | present h =>
        cases hgrows' with
        | present h' => exact congrArg some (h.antisymm h')
      | added _ b => cases hgrows'
  show Routing.mk q.enabled (q.withDefaults c).backendType (q.withDefaults c).pool
    (q.withDefaults c).routeName (q.withDefaults c).parent = r.withDefaults c
  rw [h.enabled, hbackend, hpool, hroute, hparent]
  rfl

end Routing

structure Spec.GrowsTo (s t : Spec) : Prop where
  schedulerNamespace : Persists s.schedulerNamespace t.schedulerNamespace
  simulatorNamespace : t.simulatorNamespace = s.simulatorNamespace
  proxy : s.proxy.GrowsTo t.proxy
  picker : BlockGrows False Picker.GrowsTo s.picker t.picker
  gateway : BlockGrows False Gateway.GrowsTo s.gateway t.gateway
  routing : BlockGrows False Routing.GrowsTo s.routing t.routing
  balancing : BlockGrows False Balancing.GrowsTo s.balancing t.balancing

namespace Spec

theorem GrowsTo.refl (s : Spec) : s.GrowsTo s where
  schedulerNamespace := .refl _
  simulatorNamespace := rfl
  proxy := .refl _
  picker := .refl Picker.GrowsTo.refl _
  gateway := .refl Gateway.GrowsTo.refl _
  routing := .refl Routing.GrowsTo.refl _
  balancing := .refl Balancing.GrowsTo.refl _

theorem growsTo_withDefaults (root ns : String) (s : Spec) : s.GrowsTo (s.withDefaults root ns) where
  schedulerNamespace := persists_orText _ _
  simulatorNamespace := rfl
  proxy := s.proxy.growsTo_withDefaults root
  picker := blockGrows_map (Picker.growsTo_withDefaults root _) _
  gateway := blockGrows_map (Gateway.growsTo_withDefaults root) _
  routing := blockGrows_map (Routing.growsTo_withDefaults _) _
  balancing := blockGrows_map Balancing.growsTo_withDefaults _

theorem withDefaults_of_between {root ns : String} {s t : Spec} (h : s.GrowsTo t)
    (h' : t.GrowsTo (s.withDefaults root ns)) :
    t.withDefaults root ns = s.withDefaults root ns := by
  have hns := h.schedulerNamespace.orText_eq h'.schedulerNamespace
  have hproxy := Proxy.withDefaults_of_between h.proxy h'.proxy
  have hpicker := h.picker.map_eq h'.picker fun _ _ => Picker.withDefaults_of_between
  have hgateway := h.gateway.map_eq h'.gateway fun _ _ => Gateway.withDefaults_of_between
  have hrouting := h.routing.map_eq h'.routing fun _ _ => Routing.withDefaults_of_between
  have hbalancing := h.balancing.map_eq h'.balancing fun _ _ => Balancing.withDefaults_of_between
  -- a route is filled from the gateway and the picker as they are in the end
  unfold withDefaults
  simp only [h.simulatorNamespace, hns, hproxy, hpicker, hgateway, hrouting, hbalancing]

end Spec

end Install

/-! ## §5. SimulatorDeployments -/

namespace Simulator

structure Serving.GrowsTo (s t : Serving) : Prop where
  name : Persists s.name t.name
  port : Persists s.port t.port
  type : Persists s.type t.type

namespace Serving

theorem GrowsTo.refl (s : Serving) : s.GrowsTo s := ⟨.refl _, .refl _, .refl _⟩

theorem growsTo_withDefaults (root : String) (s : Serving) : s.GrowsTo (s.withDefaults root) where
  name := persists_orText _ _
  port := persists_orNumber _ _
  type := persists_orText _ _

theorem withDefaults_of_between {root : String} {s t : Serving} (h : s.GrowsTo t)
    (h' : t.GrowsTo (s.withDefaults root)) : t.withDefaults root = s.withDefaults root := by
  have hname := h.name.orText_eq h'.name
  have hport := h.port.orNumber_eq h'.port
  have htype := h.type.orText_eq h'.type
  unfold withDefaults
  simp only [hname, hport, htype]

end Serving

structure Picker.GrowsTo (p q : Picker) : Prop where
  enabled : q.enabled = p.enabled
  replicas : Persists p.replicas q.replicas
  image : Persists p.image q.image
  port : Persists p.port q.port
  resources : q.resources = p.resources

namespace Picker

theorem GrowsTo.refl (p : Picker) : p.GrowsTo p := ⟨rfl, .refl _, .refl _, .refl _, rfl⟩

theorem growsTo_withDefaults (p : Picker) : p.GrowsTo p.withDefaults where
  enabled := rfl
  replicas := persists_orNumber _ _
  image := persists_orText _ _
  port := persists_orNumber _ _
  resources := rfl

theorem withDefaults_of_between {p q : Picker} (h : p.GrowsTo q) (h' : q.GrowsTo p.withDefaults) :
    q.withDefaults = p.withDefaults := by
  have hreplicas := h.replicas.orNumber_eq h'.replicas
  have himage := h.image.orText_eq h'.image
  have hport := h.port.orNumber_eq h'.port
  unfold withDefaults
  simp only [h.enabled, h.resources, hreplicas, himage, hport]

end Picker

structure Stage.GrowsTo (s t : Stage) : Prop where
  enabled : t.enabled = s.enabled
  replicas : Persists s.replicas t.replicas
  image : Persists s.image t.image
  port : Persists s.port t.port
  resources : t.resources = s.resources
  args : t.args = s.args

namespace Stage

theorem GrowsTo.refl (s : Stage) : s.GrowsTo s := ⟨rfl, .refl _, .refl _, .refl _, rfl, rfl⟩

theorem growsTo_withDefaults (image : String) (s : Stage) : s.GrowsTo (s.withDefaults image) where
  enabled := rfl
  replicas := persists_orNumber _ _
  image := persists_orText _ _
  port := persists_orNumber _ _
  resources := rfl
  args := rfl

theorem withDefaults_of_between {image : String} {s t : Stage} (h : s.GrowsTo t)
    (h' : t.GrowsTo (s.withDefaults image)) : t.withDefaults image = s.withDefaults image := by
  have hreplicas := h.replicas.orNumber_eq h'.replicas
  have himage := h.image.orText_eq h'.image
  have hport := h.port.orNumber_eq h'.port
  unfold withDefaults
  simp only [h.enabled, h.resources, h.args, hreplicas, himage, hport]

end Stage

structure GatewayInstance.GrowsTo (g k : GatewayInstance) : Prop where
  enabled : k.enabled = g.enabled
  replicas : Persists g.replicas k.replicas
  image : Persists g.image k.image
  port : Persists g.port k.port
  resources : k.resources = g.resources

namespace GatewayInstance

theorem GrowsTo.refl (g : GatewayInstance) : g.GrowsTo g := ⟨rfl, .refl _, .refl _, .refl _, rfl⟩

theorem growsTo_withDefaults (image : String) (g : GatewayInstance) :
    g.GrowsTo (g.withDefaults image) where
  enabled := rfl
  replicas := persists_orNumber _ _
  image := persists_orText _ _
  port := persists_orNumber _ _
  resources := rfl

theorem withDefaults_of_between {image : String} {g k : GatewayInstance} (h : g.GrowsTo k)
    (h' : k.GrowsTo (g.withDefaults image)) : k.withDefaults image = g.withDefaults image := by
  have hreplicas := h.replicas.orNumber_eq h'.replicas
  have himage := h.image.orText_eq h'.image
  have hport := h.port.orNumber_eq h'.port
  unfold withDefaults
  simp only [h.enabled, h.resources, hreplicas, himage, hport]

end GatewayInstance

structure Gateways.GrowsTo (g k : Gateways) : Prop where
  enabled : k.enabled = g.enabled
  standard : BlockGrows False GatewayInstance.GrowsTo g.standard k.standard
  istio : BlockGrows False GatewayInstance.GrowsTo g.istio k.istio

namespace Gateways

theorem GrowsTo.refl (g : Gateways) : g.GrowsTo g where
  enabled := rfl
  standard := .refl GatewayInstance.GrowsTo.refl _
  istio := .refl GatewayInstance.GrowsTo.refl _

theorem growsTo_withDefaults (g : Gateways) : g.GrowsTo g.withDefaults where
  enabled := rfl
  standard := blockGrows_map (GatewayInstance.growsTo_withDefaults _) _
  istio := blockGrows_map (GatewayInstance.growsTo_withDefaults _) _

theorem withDefaults_of_between {g k : Gateways} (h : g.GrowsTo k)
    (h' : k.GrowsTo g.withDefaults) : k.withDefaults = g.withDefaults := by
  have hstandard :=
    h.standard.map_eq h'.standard fun _ _ => GatewayInstance.withDefaults_of_between
  have histio := h.istio.map_eq h'.istio fun _ _ => GatewayInstance.withDefaults_of_between
  unfold withDefaults
  simp only [h.enabled, hstandard, histio]

end Gateways

structure Spec.GrowsTo (s t : Spec) : Prop where
  replicas : Persists s.replicas t.replicas
  image : Persists s.image t.image
  resources : t.resources = s.resources
  service : s.service.GrowsTo t.service
  balancing : BlockGrows False Balancing.GrowsTo s.balancing t.balancing
  picker : BlockGrows False Picker.GrowsTo s.picker t.picker
  prefill : BlockGrows False Stage.GrowsTo s.prefill t.prefill
  decode : BlockGrows False Stage.GrowsTo s.decode t.decode
  gateways : BlockGrows False Gateways.GrowsTo s.gateways t.gateways

namespace Spec

theorem GrowsTo.refl (s : Spec) : s.GrowsTo s where
  replicas := .refl _
  image := .refl _
  resources := rfl
  service := .refl _
  balancing := .refl Balancing.GrowsTo.refl _
  picker := .refl Picker.GrowsTo.refl _
  prefill := .refl Stage.GrowsTo.refl _
  decode := .refl Stage.GrowsTo.refl _
  gateways := .refl Gateways.GrowsTo.refl _

theorem growsTo_withDefaults (root : String) (s : Spec) : s.GrowsTo (s.withDefaults root) where
  replicas := persists_orNumber _ _
  image := persists_orText _ _
  resources := rfl
  service := s.service.growsTo_withDefaults root
  balancing := blockGrows_map Balancing.growsTo_withDefaults _
  picker := blockGrows_map Picker.growsTo_withDefaults _
  prefill := blockGrows_map (Stage.growsTo_withDefaults _) _
  decode := blockGrows_map (Stage.growsTo_withDefaults _) _
  gateways := blockGrows_map Gateways.growsTo_withDefaults _

theorem withDefaults_of_between {root : String} {s t : Spec} (h : s.GrowsTo t)
    (h' : t.GrowsTo (s.withDefaults root)) : t.withDefaults root = s.withDefaults root := by
  have hreplicas := h.replicas.orNumber_eq h'.replicas
  have himage := h.image.orText_eq h'.image
  have hservice := Serving.withDefaults_of_between h.service h'.service
  have hbalancing := h.balancing.map_eq h'.balancing fun _ _ => Balancing.withDefaults_of_between
  have hpicker := h.picker.map_eq h'.picker fun _ _ => Picker.withDefaults_of_between
  have hprefill := h.prefill.map_eq h'.prefill fun _ _ => Stage.withDefaults_of_between
  have hdecode := h.decode.map_eq h'.decode fun _ _ => Stage.withDefaults_of_between
  have hgateways := h.gateways.map_eq h'.gateways fun _ _ => Gateways.withDefaults_of_between
  -- a stage is filled with the image as it is in the end
  unfold withDefaults
  simp only [h.resources, hreplicas, himage, hservice, hbalancing, hpicker, hprefill, hdecode,
    hgateways]

end Spec

end Simulator

/-! ## §6. Specs of either kind -/

namespace RootSpec

/-- A spec grows to one of its kind. -/
inductive GrowsTo : RootSpec → RootSpec → Prop
  | install {s t : Install.Spec} (h : s.GrowsTo t) : GrowsTo (install s) (install t)
  | simulator {s t : Simulator.Spec} (h : s.GrowsTo t) : GrowsTo (simulator s) (simulator t)

theorem GrowsTo.refl (s : RootSpec) : s.GrowsTo s := by
  cases s with
  | install s => exact .install (.refl s)
  | simulator s => exact .simulator (.refl s)

theorem growsTo_withDefaults (name ns : String) (s : RootSpec) :
    s.GrowsTo (s.withDefaults name ns) := by
  cases s with
  | install s => exact .install (s.growsTo_withDefaults name ns)
  | simulator s => exact .simulator (s.growsTo_withDefaults name)

theorem withDefaults_of_between {name ns : String} {s t : RootSpec} (h : s.GrowsTo t)
    (h' : t.GrowsTo (s.withDefaults name ns)) :
    t.withDefaults name ns = s.withDefaults name ns := by
  cases h with
  | install h =>
    cases h' with
    | install h' => exact congrArg install (Install.Spec.withDefaults_of_between h h')
  | simulator h =>
    cases h' with
    | simulator h' => exact congrArg simulator (Simulator.Spec.withDefaults_of_between h h')

/-- Defaulting is a closure: a spec only grows, whatever lies between a spec and its defaults has
    the same defaults, and so have the defaults themselves. -/
theorem withDefaults_closed (name ns : String) (s : RootSpec) :
    s.GrowsTo (s.withDefaults name ns) ∧
      (∀ t : RootSpec, s.GrowsTo t → t.GrowsTo (s.withDefaults name ns) →
        t.withDefaults name ns = s.withDefaults name ns) ∧
      (s.withDefaults name ns).withDefaults name ns = s.withDefaults name ns := by
  have hgrows := s.growsTo_withDefaults name ns
  have hbetween : ∀ t : RootSpec, s.GrowsTo t → t.GrowsTo (s.withDefaults name ns) →
      t.withDefaults name ns = s.withDefaults name ns := fun _ => withDefaults_of_between
  exact ⟨hgrows, hbetween, hbetween _ hgrows (.refl _)⟩

end RootSpec

/-- A spec with a route to an inference pool that it does not name, and an enabled policy. -/
def pooledInstall : Install.Spec where
  simulatorNamespace := "sims"
  proxy := { port := 9000 }
  gateway := some { enabled := true, name := "front" }
  routing := some { enabled := true, backendType := "InferencePool" }
  balancing := some { enabled := true }

/-- The same with some of its defaults: a target port, the gateway of the route, the name of the
    pool and one of the limits. -/
def pooledInstallPartly : Install.Spec :=
  { pooledInstall with
    proxy := { port := 9000, targetPort := 9000 }
    routing := some
      { enabled := true, backendType := "InferencePool", pool := some { name := Install.poolName }
        parent := { name := "front" } }
    balancing := some { enabled := true, pool := some { pendingRequests := 1 } } }

theorem withDefaults_closed_pooledInstall :
    RootSpec.GrowsTo (.install pooledInstall) (.install pooledInstallPartly) ∧
      pooledInstallPartly ≠ pooledInstall ∧
      pooledInstallPartly ≠ pooledInstall.withDefaults "pool" "default" ∧
      pooledInstallPartly.withDefaults "pool" "default"
        = pooledInstall.withDefaults "pool" "default" := by
  have hgrows : RootSpec.GrowsTo (.install pooledInstall) (.install pooledInstallPartly) :=
    .install
      { schedulerNamespace := .inr rfl
        simulatorNamespace := rfl
        proxy := ⟨.inr rfl, .inr rfl, .inl rfl, .inr rfl⟩
        picker := .absent
        gateway := .present (.refl _)
        routing := .present ⟨rfl, .inr rfl, .added rfl _, .inr rfl, ⟨.inl rfl, .inr rfl⟩⟩
        balancing := .present ⟨rfl, .inr rfl, .added rfl _⟩ }
  have hgrows' : RootSpec.GrowsTo (.install pooledInstallPartly)
      ((RootSpec.install pooledInstall).withDefaults "pool" "default") :=
    .install
      { schedulerNamespace := .inl rfl
        simulatorNamespace := rfl
        proxy := ⟨.inl rfl, .inr rfl, .inr rfl, .inl rfl⟩
        picker := .absent
        gateway := .present ⟨rfl, .inr rfl, .inl rfl, .inl rfl, .inl rfl⟩
        routing := .present ⟨rfl, .inr rfl, .present ⟨.inr rfl, .inl rfl, rfl⟩, .inl rfl,
          ⟨.inr rfl, .inl rfl⟩⟩
        balancing := .present ⟨rfl, .inl rfl, .present ⟨.inr rfl, .inl rfl⟩⟩ }
  refine ⟨hgrows, by decide, by decide, ?_⟩
  exact RootSpec.install.inj
    ((RootSpec.withDefaults_closed "pool" "default" (.install pooledInstall)).2.1 _ hgrows hgrows')

end Converge
