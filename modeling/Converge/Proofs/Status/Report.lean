/-
  Converge.Proofs.Status.Report — the status that a pass leaves on a root.

  What a pass reports depends on the status before and on the time.  The time enters only where
  the truth value of the ready condition flips, so that a root which was reported on once stays as
  it is when the same is reported later.

  Main statements:
    * `Condition.put_put` — a condition that was put stays, with its time.
    * `Report.settled_report?` — a root that was reported on is settled.
    * `Report.report?_timeless` — reports at two times differ in times alone.
-/
import Converge.Pass.Status
import Converge.Proofs.Status.Conditions
import Converge.Proofs.Status.RoundTrip
import Converge.Proofs.Store.Face

namespace Converge

/-! ## §1. Conditions -/

namespace Condition

/-- A condition that was put before, at whatever time, is left as it is. -/
theorem put_put (cs : List Condition) (c : Condition) (t : Option String) :
    put (put cs c) { c with lastTransitionTime := t } = put cs c := by
  have hagain (prior : Option Condition) :
      renewed (some (renewed prior c)) { c with lastTransitionTime := t } = renewed prior c := by
    obtain ⟨s, hs⟩ := exists_renewed prior c
    rw [hs]
    exact renewed_of_status rfl
  induction cs with
  | nil =>
    show put [renewed none c] { c with lastTransitionTime := t } = [renewed none c]
    rw [put_cons, if_pos (type_renewed none c), hagain]
  | cons d rest ih =>
    rw [put_cons d c]
    by_cases htype : d.type = c.type
    · -- this is the one that was put, with the truth value that is put again
      rw [if_pos htype, put_cons, if_pos (type_renewed (some d) c), hagain]
    · rw [if_neg htype, put_cons, if_neg htype, ih]

/-- The condition with its transition time blanked. -/
def timeless (c : Condition) : Condition :=
  { c with lastTransitionTime := c.lastTransitionTime.map fun _ => "" }

/-- Of a condition that is put at two times, only the times differ. -/
theorem map_timeless_put (cs : List Condition) (c : Condition) (s t : String) :
    (put cs { c with lastTransitionTime := some s }).map timeless
      = (put cs { c with lastTransitionTime := some t }).map timeless := by
  induction cs with
  | nil => rfl
  | cons d rest ih =>
    rw [put_cons, put_cons]
    by_cases htype : d.type = c.type
    · rw [if_pos htype, if_pos htype, List.map_cons, List.map_cons]
      refine congrArg (· :: rest.map timeless) ?_
      unfold renewed
      dsimp only
      split <;> rfl
    · rw [if_neg htype, if_neg htype, List.map_cons, List.map_cons, ih]

end Condition

/-- Conditions in wire form with their transition times blanked. -/
def Json.timelessConditions : Json → Json
  | .arr cs => .arr (cs.map fun c => c.mapMember (fun _ => .str "") "lastTransitionTime")
  | v => v

/-- A status in wire form with the transition times of its conditions blanked. -/
def Json.timelessStatus (status : Json) : Json :=
  status.mapMember Json.timelessConditions "conditions"

/-- An object with the transition times in its status blanked. -/
def Object.timeless (o : Object) : Object :=
  { o with data := o.data.mapMember Json.timelessStatus "status" }

theorem Condition.toJson_timeless (c : Condition) :
    c.toJson.mapMember (fun _ => .str "") "lastTransitionTime" = c.timeless.toJson := by
  obtain ⟨type, status, reason, message, time, generation⟩ := c
  cases time with
  | none =>
    simp [Condition.toJson, Condition.timeless, Json.mapMember, Json.get?_append, Table.get?]
  | some t => rfl

/-! ## §2. Forms -/

/-- A form whose writing can be read, and whose conditions are a part of their own. -/
structure StatusForm.Lawful {τ : Type} (form : StatusForm τ) : Prop where
  read_write : ∀ s, form.read? (form.write s) = some s
  not_null : ∀ s, form.write s ≠ .null
  conditions_with : ∀ s cs, form.conditions (form.withConditions s cs) = cs
  with_with : ∀ s cs ds,
    form.withConditions (form.withConditions s cs) ds = form.withConditions s ds
  write_timeless : ∀ s, (form.write s).timelessStatus
    = form.write (form.withConditions s ((form.conditions s).map Condition.timeless))

/-- Blanking the times among leading conditions of a record. -/
theorem Json.timelessStatus_written (cs : List Condition) (ms : Table String Json)
    (gone : Table.get? ms "conditions" = none) :
    (Json.obj (Json.listMember "conditions" Condition.toJson cs ++ ms)).timelessStatus
      = .obj (Json.listMember "conditions" Condition.toJson (cs.map Condition.timeless)
        ++ ms) := by
  cases cs with
  | nil =>
    exact Json.mapMember_of_get?_none gone
  | cons c cs =>
    have hblank : ((c :: cs).map Condition.toJson).map
        (fun v => v.mapMember (fun _ => .str "") "lastTransitionTime")
        = ((c :: cs).map Condition.timeless).map Condition.toJson := by
      rw [List.map_map, List.map_map]
      exact List.map_congr_left fun d _ => d.toJson_timeless
    show Json.obj (("conditions", .arr (((c :: cs).map Condition.toJson).map
      (fun v => v.mapMember (fun _ => .str "") "lastTransitionTime"))) :: ms) = _
    rw [hblank]
    rfl

/-- A status that was written to an object is read from it. -/
theorem StatusForm.Lawful.stored?_written {τ : Type} {form : StatusForm τ} (h : form.Lawful)
    (data : Json) (s : τ) :
    form.stored? (data.setMember "status" (form.write s)) = some s := by
  unfold StatusForm.stored?
  rw [Json.get?_setMember, if_pos rfl]
  cases hw : form.write s with
  | null => exact absurd hw (h.not_null s)
  | bool _ | int _ | double _ | str _ | arr _ | obj _ =>
    show form.read? _ = some s
    rw [← hw]
    exact h.read_write s

theorem Install.statusForm_lawful : Install.statusForm.Lawful where
  read_write := Install.Status.ofJson?_toJson
  not_null := fun _ => nofun
  conditions_with := fun _ _ => rfl
  with_with := fun _ _ _ => rfl
  write_timeless := by
    intro s
    have h := Json.timelessStatus_written s.conditions [] rfl
    rwa [List.append_nil, List.append_nil] at h

theorem Simulator.statusForm_lawful : Simulator.statusForm.Lawful where
  read_write := Simulator.Status.ofJson?_toJson
  not_null := fun _ => nofun
  conditions_with := fun _ _ => rfl
  with_with := fun _ _ _ => rfl
  write_timeless := by
    intro s
    have h := Json.timelessStatus_written s.conditions
      (Json.listMember "endpoints" .str s.endpoints
        ++ (Json.textMember "gatewayURL" s.gatewayUrl
        ++ [("readyReplicas", .ofInt32 s.readyReplicas), ("replicas", .ofInt32 s.replicas)]))
      (by simp [Json.get?_append, Table.get?])
    rwa [← List.append_assoc, ← List.append_assoc, ← List.append_assoc, ← List.append_assoc] at h

/-! ## §3. Reports -/

/-- What is to be reported on a root, apart from the time. -/
structure Report (τ : Type) where
  form : StatusForm τ
  change : τ → τ
  verdict : Verdict
  generation : Option Int64

namespace Report

variable {τ : Type}

/-- The status after a report. -/
def next (r : Report τ) (now : String) (status : τ) : τ :=
  r.form.next r.change r.verdict r.generation now status

/-- The form is lawful, and the change does not look at the conditions: it finds nothing to do
    where it was made before. -/
structure Lawful (r : Report τ) : Prop where
  form : r.form.Lawful
  steady : ∀ s cs, r.change (r.form.withConditions (r.change s) cs)
    = r.form.withConditions (r.change s) cs

/-- The ready condition of a report. -/
def ready (r : Report τ) : Condition where
  type := Condition.readyType
  status := Truth.ofBool r.verdict.ready
  reason := r.verdict.reason
  message := r.verdict.message
  observedGeneration := r.generation

theorem next_eq (r : Report τ) (now : String) (s : τ) :
    r.next now s = r.form.withConditions (r.change s)
      (Condition.put (r.form.conditions (r.change s))
        { r.ready with lastTransitionTime := some now }) := rfl

/-- Reporting the same at another time changes nothing. -/
theorem next_next {r : Report τ} (h : r.Lawful) (now t : String) (s : τ) :
    r.next t (r.next now s) = r.next now s := by
  rw [next_eq r t, next_eq r now, h.steady, h.form.with_with, h.form.conditions_with]
  exact congrArg _ (Condition.put_put _ { r.ready with lastTransitionTime := some now } (some t))

/-- Two reports of the same at different times differ in times alone. -/
theorem write_next_timeless {r : Report τ} (h : r.Lawful) (now t : String) (s : τ) :
    (r.form.write (r.next now s)).timelessStatus = (r.form.write (r.next t s)).timelessStatus := by
  rw [h.form.write_timeless, h.form.write_timeless, next_eq, next_eq, h.form.with_with,
    h.form.with_with, h.form.conditions_with, h.form.conditions_with,
    Condition.map_timeless_put _ r.ready now t]

/-! ## §4. Reports on objects -/

variable [DecidableEq τ]

/-- A root after a report; none when its status cannot be read. -/
def report? (r : Report τ) (now : String) (o : Object) : Option Object :=
  (r.form.stored? o.data).map fun status =>
    if r.next now status = status then o
    else { o with data := o.data.setMember "status" (r.form.write (r.next now status)) }

/-- The stored status is what would be reported, at any time. -/
def Settled (r : Report τ) (o : Object) : Prop :=
  ∃ status, r.form.stored? o.data = some status ∧ ∀ t, r.next t status = status

theorem report?_face (r : Report τ) (now : String) (o : Object) :
    r.report? now o.face = (r.report? now o).map Object.face := by
  unfold report?
  rw [Object.face_data]
  cases r.form.stored? o.data with
  | none => rfl
  | some status =>
    show some (if r.next now status = status then o.face else _)
      = some (Object.face (if _ then _ else _))
    split <;> rfl

/-- A report touches nothing but data. -/
theorem report?_metadata {r : Report τ} {now : String} {o q : Object}
    (reported : r.report? now o = some q) : q.metadata = o.metadata := by
  obtain ⟨status, _, rfl⟩ := Option.map_eq_some_iff.mp reported
  split <;> rfl

/-- A root that was reported on is settled. -/
theorem settled_report? {r : Report τ} (h : r.Lawful) {now : String} {o p : Object}
    (reported : r.report? now o = some p) : r.Settled p := by
  obtain ⟨status, hstored, hp⟩ := Option.map_eq_some_iff.mp reported
  by_cases hnext : r.next now status = status
  · -- nothing was written, so the status is one that was reported before
    rw [if_pos hnext] at hp
    subst hp
    refine ⟨status, hstored, ?_⟩
    intro t
    rw [← hnext]
    exact next_next h now t status
  · rw [if_neg hnext] at hp
    subst hp
    exact ⟨r.next now status, h.form.stored?_written _ _, fun t => next_next h now t status⟩

theorem report?_of_settled {r : Report τ} {o : Object} (settled : r.Settled o) (t : String) :
    r.report? t o = some o := by
  obtain ⟨status, hstored, hnext⟩ := settled
  unfold report?
  rw [hstored, Option.map_some, if_pos (hnext t)]

/-- Reports at two times differ in times alone. -/
theorem report?_timeless {r : Report τ} (h : r.Lawful) (now t : String) (o : Object) :
    (r.report? now o).map Object.timeless = (r.report? t o).map Object.timeless := by
  unfold report?
  cases r.form.stored? o.data with
  | none => rfl
  | some status =>
    -- whether there is anything to report does not depend on the time
    have hsame : r.next now status = status ↔ r.next t status = status := by
      constructor
      · intro hnow
        rw [← hnow]
        exact next_next h now t status
      · intro ht
        rw [← ht]
        exact next_next h t now status
    simp only [Option.map_some]
    by_cases hnow : r.next now status = status
    · rw [if_pos hnow, if_pos (hsame.mp hnow)]
    · rw [if_neg hnow, if_neg fun ht => hnow (hsame.mpr ht)]
      unfold Object.timeless
      simp only [Json.mapMember_setMember]
      rw [write_next_timeless h now t]

end Report

end Converge
