/-
  Converge.Proofs.Status.RoundTrip — a status is read back as it was written.

  Main statements: `Condition.ofJson?_toJson`, `Install.Status.ofJson?_toJson` and
  `Simulator.Status.ofJson?_toJson`.
-/
import Converge.Proofs.Json.Written
import Converge.Status.Basic

namespace Converge

/-! ## §1. Conditions -/

theorem Truth.ofJson?_toJson (t : Truth) : Truth.ofJson? t.toJson = some t := by
  cases t <;> decide

theorem Condition.ofJson?_toJson (c : Condition) : Condition.ofJson? c.toJson = some c := by
  have htime := Json.elim_optional (f := Json.text?) (g := .str) (fun _ => rfl) rfl
    c.lastTransitionTime
  have hgeneration := Json.elim_optional (f := Json.int64?) (g := fun n : Int64 => .int n.toInt)
    Json.int64?_toInt rfl c.observedGeneration
  simp [ofJson?, toJson, Json.fullRecord?, Json.members?, Json.textField, Json.optional,
    Json.required, Json.field_eq_elim, Json.get?_append, Table.get?_cons, Json.elim_text,
    Json.text?, Truth.ofJson?_toJson, htime, hgeneration]

/-! ## §2. Statuses -/

theorem Install.Status.ofJson?_toJson (s : Install.Status) : ofJson? s.toJson = some s := by
  have hconditions := Json.elim_list Condition.ofJson?_toJson s.conditions
  simp [ofJson?, toJson, Json.record?, Json.field_eq_elim, hconditions]

theorem Simulator.Status.ofJson?_toJson (s : Simulator.Status) : ofJson? s.toJson = some s := by
  have hconditions := Json.elim_list Condition.ofJson?_toJson s.conditions
  have hendpoints := Json.elim_list (f := Json.text?) (g := .str) (fun _ => rfl) s.endpoints
  simp [ofJson?, toJson, Json.record?, Json.textField, Json.numberField, Json.field_eq_elim,
    Json.get?_append, Table.get?_cons, Json.elim_text, Json.int32?_ofInt32, hconditions,
    hendpoints]

end Converge
