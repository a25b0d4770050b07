/-
  Converge.Proofs.Spec.RoundTrip — specs and statuses are read back as they were written.

  Members that hold nothing are left out and read as nothing; a block that is there but empty is
  written, and is not the same as no block.  With readers that keep to their schemas, members that
  a schema does not name do no harm at any depth.

  Main statement: `codecs_round_trip` — for both kinds of spec and of status, for conditions and
  for traffic policies.
-/
import Converge.Proofs.Json.Written
import Converge.Proofs.Spec.Readers
import Converge.Proofs.Status.RoundTrip

namespace Converge

open Json (record? textField numberField boolField field_eq_elim get?_append elim_text
  elim_texts elim_optional int32?_ofInt32)

/-! ## §1. Blocks of both kinds of spec -/

theorem PoolLimits.ofJson?_toJson (p : PoolLimits) : ofJson? p.toJson = some p := by
  simp [ofJson?, toJson, record?, numberField, field_eq_elim, Table.get?_cons, int32?_ofInt32]

theorem Balancing.ofJson?_toJson (b : Balancing) : ofJson? b.toJson = some b := by
  have hpool := elim_optional PoolLimits.ofJson?_toJson rfl b.pool
  simp [ofJson?, toJson, record?, textField, boolField, Json.optional, field_eq_elim, get?_append,
    Table.get?_cons, elim_text, hpool, Json.bool?]

theorem ResourceClaim.ofJson?_toJson (c : ResourceClaim) : ofJson? c.toJson = some c := by
  have hrequest := elim_optional (f := Json.text?) (g := .str) (fun _ => rfl) rfl c.request
  simp [ofJson?, toJson, Json.members?, Json.optional, field_eq_elim, Table.get?_cons,
    Json.nullable, Json.text?, hrequest]

theorem Resources.ofJson?_toJson (r : Resources) : ofJson? r.toJson = some r := by
  have hclaims := elim_optional (f := Json.listOf? ResourceClaim.ofJson?)
    (g := fun cs : List ResourceClaim => .arr (cs.map ResourceClaim.toJson))
    (Json.items?_map ResourceClaim.ofJson?_toJson) rfl r.claims
  have hlimits := elim_optional Json.texts?_ofTexts rfl r.limits
  have hrequests := elim_optional Json.texts?_ofTexts rfl r.requests
  simp [ofJson?, toJson, Json.members?, Json.optional, field_eq_elim, get?_append, hclaims, hlimits,
    hrequests]

/-! ## §2. The spec of a SchedulerInstall -/

namespace Install

theorem Proxy.ofJson?_toJson (p : Proxy) : ofJson? p.toJson = some p := by
  simp [ofJson?, toJson, record?, textField, numberField, field_eq_elim, get?_append,
    Table.get?_cons, elim_text, elim_texts, int32?_ofInt32]

theorem Picker.ofJson?_toJson (p : Picker) : ofJson? p.toJson = some p := by
  have hargs := Json.elim_list (f := Json.text?) (g := .str) (fun _ => rfl) p.args
  have hresources := elim_optional Resources.ofJson?_toJson rfl p.resources
  simp [ofJson?, toJson, record?, textField, numberField, boolField, Json.optional, field_eq_elim,
    get?_append, Table.get?_cons, elim_text, int32?_ofInt32, Json.bool?, hargs, hresources]

theorem Gateway.ofJson?_toJson (g : Gateway) : ofJson? g.toJson = some g := by
  simp [ofJson?, toJson, record?, textField, numberField, boolField, field_eq_elim, get?_append,
    Table.get?_cons, elim_text, int32?_ofInt32, Json.bool?]

theorem ParentGateway.ofJson?_toJson (p : ParentGateway) : ofJson? p.toJson = some p := by
  simp [ofJson?, toJson, record?, textField, field_eq_elim, get?_append, elim_text]

theorem InferencePool.ofJson?_toJson (p : InferencePool) : ofJson? p.toJson = some p := by
  simp [ofJson?, toJson, record?, textField, numberField, field_eq_elim, get?_append,
    Table.get?_cons, elim_text, int32?_ofInt32]

theorem Routing.ofJson?_toJson (r : Routing) : ofJson? r.toJson = some r := by
  have hpool := elim_optional InferencePool.ofJson?_toJson rfl r.pool
  simp [ofJson?, toJson, record?, textField, boolField, Json.optional, field_eq_elim, get?_append,
    Table.get?_cons, elim_text, Json.bool?, hpool, ParentGateway.ofJson?_toJson]

theorem Spec.ofJson?_toJson (s : Spec) : ofJson? s.toJson = some s := by
  have hbalancing := elim_optional Balancing.ofJson?_toJson rfl s.balancing
  have hpicker := elim_optional Picker.ofJson?_toJson rfl s.picker
  have hgateway := elim_optional Gateway.ofJson?_toJson rfl s.gateway
  have hrouting := elim_optional Routing.ofJson?_toJson rfl s.routing
  simp [ofJson?, toJson, record?, textField, Json.optional, field_eq_elim, get?_append,
    Table.get?_cons, elim_text, hbalancing, hpicker, hgateway, hrouting, Proxy.ofJson?_toJson]

end Install

/-! ## §3. The spec of a SimulatorDeployment -/

namespace Simulator

theorem Serving.ofJson?_toJson (s : Serving) : ofJson? s.toJson = some s := by
  simp [ofJson?, toJson, record?, textField, numberField, field_eq_elim, get?_append,
    Table.get?_cons, elim_text, int32?_ofInt32]

theorem Picker.ofJson?_toJson (p : Picker) : ofJson? p.toJson = some p := by
  have hresources := elim_optional Resources.ofJson?_toJson rfl p.resources
  simp [ofJson?, toJson, record?, textField, numberField, boolField, Json.optional, field_eq_elim,
    get?_append, Table.get?_cons, elim_text, int32?_ofInt32, Json.bool?, hresources]

theorem GatewayInstance.ofJson?_toJson (g : GatewayInstance) : ofJson? g.toJson = some g := by
  have hresources := elim_optional Resources.ofJson?_toJson rfl g.resources
  simp [ofJson?, toJson, record?, textField, numberField, boolField, Json.optional, field_eq_elim,
    get?_append, Table.get?_cons, elim_text, int32?_ofInt32, Json.bool?, hresources]

theorem Stage.ofJson?_toJson (s : Stage) : ofJson? s.toJson = some s := by
  have hargs := Json.elim_list (f := Json.text?) (g := .str) (fun _ => rfl) s.args
  have hresources := elim_optional Resources.ofJson?_toJson rfl s.resources
  simp [ofJson?, toJson, record?, textField, numberField, boolField, Json.optional, field_eq_elim,
    get?_append, Table.get?_cons, elim_text, int32?_ofInt32, Json.bool?, hargs, hresources]

theorem Gateways.ofJson?_toJson (g : Gateways) : ofJson? g.toJson = some g := by
  have histio := elim_optional GatewayInstance.ofJson?_toJson rfl g.istio
  have hstandard := elim_optional GatewayInstance.ofJson?_toJson rfl g.standard
  simp [ofJson?, toJson, record?, boolField, Json.optional, field_eq_elim, get?_append,
    Table.get?_cons, Json.bool?, histio, hstandard]

theorem Spec.ofJson?_toJson (s : Spec) : ofJson? s.toJson = some s := by
  have hdecode := elim_optional Stage.ofJson?_toJson rfl s.decode
  have hpicker := elim_optional Picker.ofJson?_toJson rfl s.picker
  have hgateways := elim_optional Gateways.ofJson?_toJson rfl s.gateways
  have hbalancing := elim_optional Balancing.ofJson?_toJson rfl s.balancing
  have hprefill := elim_optional Stage.ofJson?_toJson rfl s.prefill
  have hresources := elim_optional Resources.ofJson?_toJson rfl s.resources
  simp [ofJson?, toJson, record?, textField, numberField, Json.optional, field_eq_elim, get?_append,
    Table.get?_cons, elim_text, int32?_ofInt32, hdecode, hpicker, hgateways, hbalancing, hprefill,
    hresources, Serving.ofJson?_toJson]

end Simulator

/-! ## §4. All codecs -/

/-- Specs and statuses of both kinds, conditions and traffic policies are read back as they were
    written, whatever they hold, and also when the written value, or any record in it, has members
    added that its schema does not name. -/
theorem codecs_round_trip :
    Schema.install.RoundTrips Install.Spec.toJson Install.Spec.ofJson? ∧
    Schema.simulator.RoundTrips Simulator.Spec.toJson Simulator.Spec.ofJson? ∧
    Schema.installStatus.RoundTrips Install.Status.toJson Install.Status.ofJson? ∧
    Schema.simulatorStatus.RoundTrips Simulator.Status.toJson Simulator.Status.ofJson? ∧
    Schema.condition.RoundTrips Condition.toJson Condition.ofJson? ∧
    Schema.balancing.RoundTrips Balancing.toJson Balancing.ofJson? :=
  ⟨.of_keeps Install.Spec.keeps Install.Spec.ofJson?_toJson,
    .of_keeps Simulator.Spec.keeps Simulator.Spec.ofJson?_toJson,
    .of_keeps Install.Status.keeps Install.Status.ofJson?_toJson,
    .of_keeps Simulator.Status.keeps Simulator.Status.ofJson?_toJson,
    .of_keeps Condition.keeps Condition.ofJson?_toJson,
    .of_keeps Balancing.keeps Balancing.ofJson?_toJson⟩

/-- A SchedulerInstall whose picker claims a device; its limits are there but empty. -/
def claimingInstall : Install.Spec :=
  { simulatorNamespace := "sims"
    picker := some
      { enabled := true
        resources := some { claims := some [{ name := "gpu" }], limits := some [] } } }

/-- Its wire form with a note, and one more for the picker. -/
def notedInstall : Json :=
  claimingInstall.toJson.setMember "note" (.str "kept")
    |>.mapMember (fun epp => epp.setMember "note" .null) "epp"

/-- The notes change nothing. -/
theorem codecs_round_trip_notedInstall :
    notedInstall ≠ claimingInstall.toJson ∧
      Schema.install.Widens claimingInstall.toJson notedInstall ∧
      Install.Spec.ofJson? claimingInstall.toJson = some claimingInstall ∧
      Install.Spec.ofJson? notedInstall = some claimingInstall := by
  have hroot : Schema.install.Widens claimingInstall.toJson
      (claimingInstall.toJson.setMember "note" (.str "kept")) := .insert rfl _
  have hpicker : Schema.installPicker.Widens (claimingInstall.picker.get rfl).toJson
      ((claimingInstall.picker.get rfl).toJson.setMember "note" .null) := .insert rfl _
  have hwider : Schema.install.Widens claimingInstall.toJson notedInstall :=
    hroot.trans (.member (k := "epp") rfl rfl hpicker)
  have hspec := codecs_round_trip.1 claimingInstall
  exact ⟨by decide +kernel, hwider, hspec.1, hspec.2 _ hwider⟩

end Converge
