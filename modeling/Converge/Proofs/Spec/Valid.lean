/-
  Converge.Proofs.Spec.Valid — what validation asks of a spec.

  A check is passed or names its first fault.  Whether a spec passes is a matter of its blocks:
  each of them that is there, enabled or not, has to be valid, and a disabled one is asked for as
  much as an enabled one.

  Main statements: `Install.Spec.validate_eq_ok` and `Simulator.Spec.validate_eq_ok`.
-/
import Converge.RootSpec
import Mathlib.Tactic.MkIffOfInductiveProp

namespace Converge

/-! ## §1. Checks -/

/-- Numbers that a service may listen on. -/
def IsPort (n : Int32) : Prop := 0 < n ∧ n ≤ 65535

instance : DecidablePred IsPort := fun n => inferInstanceAs (Decidable (0 < n ∧ n ≤ 65535))

namespace Check

variable {field : String} {n : Int32}

theorem bind_eq_ok {x : Except SpecError Unit} {f : Unit → Except SpecError Unit} :
    (x >>= f) = .ok () ↔ x = .ok () ∧ f () = .ok () := by
  cases x <;> simp [bind, Except.bind]

theorem positive_eq_ok : positive field n = .ok () ↔ 0 < n := by
  unfold positive
  by_cases h : n ≤ 0
  · rw [if_pos h]
    exact ⟨nofun, fun hpos => absurd h (Int32.not_le.mpr hpos)⟩
  · rw [if_neg h]
    exact ⟨fun _ => Int32.not_le.mp h, fun _ => rfl⟩

theorem port_eq_ok : port field n = .ok () ↔ IsPort n := by
  unfold port IsPort
  rw [bind_eq_ok, positive_eq_ok]
  refine and_congr_right fun _ => ?_
  by_cases h : 65535 < n
  · rw [if_pos h]
    exact ⟨nofun, fun hle => absurd h (Int32.not_lt.mpr hle)⟩
  · rw [if_neg h]
    exact ⟨fun _ => Int32.not_lt.mp h, fun _ => rfl⟩

/-- The port of a pool may be missing. -/
theorem port_or_zero_eq_ok :
    (if n = 0 then .ok () else port field n) = .ok () ↔ n = 0 ∨ IsPort n := by
  by_cases hzero : n = 0
  · simp [hzero]
  · simp [hzero, port_eq_ok]

theorem oneOf_eq_ok {value : String} {allowed : List String} :
    oneOf field value allowed = .ok () ↔ value ∈ allowed := by
  unfold oneOf
  split <;> simp_all

theorem each_eq_ok {α : Type} {check : α → Except SpecError Unit} {o : Option α} :
    each check o = .ok () ↔ ∀ v ∈ o, check v = .ok () := by
  cases o <;> simp [each]

end Check

/-! ## §2. What validation asks for -/

open Check (bind_eq_ok positive_eq_ok port_eq_ok port_or_zero_eq_ok oneOf_eq_ok each_eq_ok)

/-- The algorithm is known and the limits are above zero. -/
@[mk_iff]
structure Balancing.Valid (b : Balancing) : Prop where
  algorithm : b.algorithm ∈ algorithms
  pool : ∀ p ∈ b.pool, 0 < p.pendingRequests ∧ 0 < p.requestsPerConnection

theorem Balancing.validate_eq_ok {field : String} {b : Balancing} :
    b.validate field = .ok () ↔ b.Valid := by
  simp only [validate, bind_eq_ok, oneOf_eq_ok, each_eq_ok, positive_eq_ok, valid_iff]

namespace Install

@[mk_iff]
structure Proxy.Valid (p : Proxy) : Prop where
  port : IsPort p.port
  targetPort : IsPort p.targetPort

@[mk_iff]
structure Picker.Valid (p : Picker) : Prop where
  replicas : 0 < p.replicas
  port : IsPort p.port
  verbosity : 0 < p.verbosity

@[mk_iff]
structure Routing.Valid (r : Routing) : Prop where
  backendType : r.backendType ∈ [serviceBackend, poolBackend]
  pool : ∀ p ∈ r.pool, p.port = 0 ∨ IsPort p.port

/-- What validation asks of a spec with its defaults. -/
@[mk_iff]
structure Spec.Valid (s : Spec) : Prop where
  simulatorNamespace : Text.isBlankText s.simulatorNamespace = false
  proxy : s.proxy.Valid
  picker : ∀ p ∈ s.picker, p.Valid
  gateway : ∀ g ∈ s.gateway, IsPort g.listenerPort
  routing : ∀ r ∈ s.routing, r.Valid
  balancing : ∀ b ∈ s.balancing, b.Valid

theorem Spec.validate_eq_ok {s : Spec} : s.validate = .ok () ↔ s.Valid := by
  unfold validate
  rw [valid_iff]
  cases Text.isBlankText s.simulatorNamespace with
  | true =>
    -- the other checks are not reached
    exact ⟨nofun, fun h => absurd h.1 nofun⟩
  | false =>
    rw [if_neg Bool.false_ne_true]
    simp only [bind_eq_ok, positive_eq_ok, port_eq_ok, port_or_zero_eq_ok, oneOf_eq_ok, each_eq_ok,
      Balancing.validate_eq_ok, Proxy.valid_iff, Picker.valid_iff, Routing.valid_iff, true_and,
      and_assoc]

end Install

namespace Simulator

@[mk_iff]
structure Serving.Valid (s : Serving) : Prop where
  port : IsPort s.port
  type : s.type ∈ serviceTypes

/-- The numbers that pickers, stages and gateways have in common. -/
@[mk_iff]
structure Scaled (replicas port : Int32) : Prop where
  replicas : 0 < replicas
  port : IsPort port

theorem checkScale_eq_ok {block : String} {replicas port : Int32} :
    checkScale block replicas port = .ok () ↔ Scaled replicas port := by
  simp only [checkScale, bind_eq_ok, positive_eq_ok, port_eq_ok, scaled_iff]

@[mk_iff]
structure Gateways.Valid (g : Gateways) : Prop where
  standard : ∀ i ∈ g.standard, Scaled i.replicas i.port
  istio : ∀ i ∈ g.istio, Scaled i.replicas i.port

/-- What validation asks of a spec with its defaults. -/
@[mk_iff]
structure Spec.Valid (s : Spec) : Prop where
  replicas : 0 < s.replicas
  service : s.service.Valid
  picker : ∀ p ∈ s.picker, Scaled p.replicas p.port
  prefill : ∀ t ∈ s.prefill, Scaled t.replicas t.port
  decode : ∀ t ∈ s.decode, Scaled t.replicas t.port
  gateways : ∀ g ∈ s.gateways, g.Valid
  balancing : ∀ b ∈ s.balancing, b.Valid

theorem Spec.validate_eq_ok {s : Spec} : s.validate = .ok () ↔ s.Valid := by
  simp only [validate, bind_eq_ok, positive_eq_ok, port_eq_ok, oneOf_eq_ok, each_eq_ok,
    checkScale_eq_ok, Balancing.validate_eq_ok, valid_iff, Serving.valid_iff, Gateways.valid_iff,
    and_assoc]

end Simulator

end Converge
