/-
  Converge.Proofs.Status.Verdict — what is said of deployments in view of their replicas.

  How many replicas a deployment is to have is read back from the store.  Where the deployment is
  in line with its child this is what the child asks for, since the count is laid over whatever was
  there.  How many of them are ready is up to others; the count is cut to 32 bits, which changes
  nothing for counts that have no more.

  Main statements:
    * `Verdict.ofObservations_of_shows` — the verdict names the first deployment that lags behind.
    * `Report.find?_ready` — after a report the ready condition says what the verdict says.
-/
import Converge.Proofs.Children.Tracked
import Converge.Proofs.Status.Report

namespace Converge

/-! ## §1. Replicas -/

/-- The ready replicas in the status of an object; zero where there is no whole number. -/
def Object.readyReplicas (o : Object) : Int :=
  match o.data.follow ["status", "readyReplicas"] with
  | .int n => n
  | _ => 0

/-- The ready replicas that a store has for a deployment. -/
def Store.readyReplicas (s : Store) (key : Key) : Int :=
  ((Table.get? s.objects key).map Object.readyReplicas).getD 0

theorem Object.readyReplicas_of_status {o p : Object}
    (same : o.data.get? "status" = p.data.get? "status") : o.readyReplicas = p.readyReplicas := by
  have hfollow : o.data.follow ["status", "readyReplicas"]
      = p.data.follow ["status", "readyReplicas"] :=
    congrArg (fun v => ((v.getD .null).get? "readyReplicas").getD .null) same
  unfold readyReplicas
  rw [hfollow]

/-- A deployment that is created has no status yet. -/
theorem Object.readyReplicas_of_none {o : Object} (none : o.data.get? "status" = none) :
    o.readyReplicas = 0 := by
  have hfollow : o.data.follow ["status", "readyReplicas"] = .null :=
    congrArg (fun v => ((v.getD .null).get? "readyReplicas").getD .null) none
  unfold readyReplicas
  rw [hfollow]

/-! ## §2. Observations -/

namespace Observation

/-- The observation is of a deployment, with what it asks for and what is ready of it. -/
structure Shows (o : Observation) (e : Key × Deployment) (ready : Int) : Prop where
  key : o.key = e.1
  desired : o.desired = some e.2.replicas
  ready : o.ready.toInt = ready

theorem Shows.isReady_eq {o : Observation} {e : Key × Deployment} {ready : Int}
    (h : o.Shows e ready) : o.isReady = decide (ready = e.2.replicas.toInt) := by
  unfold isReady
  rw [Bool.eq_iff_iff, decide_eq_true_iff, h.desired, ← h.ready, Int32.toInt_inj, beq_iff_eq]
  exact ⟨fun same => (Option.some.inj same).symm, fun same => congrArg some same.symm⟩

/-- A count of 32 bits is read as it is. -/
theorem count?_ofInt32 (n : Int32) : count? (.ofInt32 n) = some n := by
  have hwide : Json.ofInt32 n = .int n.toInt64.toInt :=
    congrArg Json.int (Int32.toInt_toInt64 n).symm
  unfold count?
  rw [hwide, Json.int64?_toInt]
  exact congrArg some (Int32.toInt32_toInt64 n)

/-- What is read as ready of an object are its ready replicas. -/
theorem ready_ofObject (key : Key) {o : Object} {n : Int32} (counted : o.readyReplicas = n.toInt) :
    (ofObject key (some o)).ready.toInt = o.readyReplicas := by
  unfold Object.readyReplicas at counted ⊢
  show ((count? (o.data.follow ["status", "readyReplicas"])).getD 0).toInt = _
  cases hcount : o.data.follow ["status", "readyReplicas"] with
  | int m =>
    rw [hcount] at counted
    obtain rfl : m = n.toInt := counted
    rw [show Json.int n.toInt = .ofInt32 n from rfl, count?_ofInt32]
    rfl
  | null | bool _ | double _ | str _ | arr _ | obj _ => rfl

/-- What a deployment is to have is read back from one that is in line with it. -/
theorem desired_ofObject (key : Key) {c : Child} {d : Deployment} (body : c.body = .deployment d)
    {o : Object} (line : c.InLine o) : (ofObject key (some o)).desired = some d.replicas := by
  have hcovers := line.settled.covers
  rw [body] at hcovers
  obtain ⟨spec, hspec, hcovers⟩ := hcovers.get? (k := "spec") rfl
  obtain ⟨replicas, hreplicas, hcovers⟩ := hcovers.get? (k := "replicas") rfl
  -- a number is covered by nothing but itself
  obtain rfl : replicas = .ofInt32 d.replicas := by
    cases hcovers
    rfl
  have hfollow : o.data.follow ["spec", "replicas"] = .ofInt32 d.replicas := by
    show (((o.data.get? "spec").getD .null).get? "replicas").getD .null = _
    rw [hspec, Option.getD_some, hreplicas, Option.getD_some]
  show some ((count? (o.data.follow ["spec", "replicas"])).getD 1) = _
  rw [hfollow, count?_ofInt32, Option.getD_some]

end Observation

/-! ## §3. Verdicts -/

namespace Verdict

/-- The first deployment that has not as many ready replicas as it asks for. -/
def lagging? (ready : Key → Int) (ds : List (Key × Deployment)) : Option (Key × Deployment) :=
  ds.find? fun e => ready e.1 ≠ e.2.replicas.toInt

theorem lagging?_eq_none_iff {ready : Key → Int} {ds : List (Key × Deployment)} :
    lagging? ready ds = none ↔ ∀ e ∈ ds, ready e.1 = e.2.replicas.toInt := by
  simp [lagging?, List.find?_eq_none]

/-- What is said of a deployment with too few ready replicas. -/
def laggingText (ready : Key → Int) (e : Key × Deployment) : String :=
  "waiting for " ++ e.1.display ++ ": " ++ toString (ready e.1) ++ "/"
    ++ toString e.2.replicas.toInt ++ " replicas ready"

theorem waitingFor_of_shows {ready : Key → Int} {o : Observation} {e : Key × Deployment}
    (h : o.Shows e (ready e.1)) : waitingFor o = laggingText ready e := by
  unfold waitingFor laggingText
  rw [h.desired, h.key, ← h.ready]

/-- The verdict on deployments of which nothing is missing names the first that lags behind. -/
theorem ofObservations_of_shows (text : ReadyText) {ready : Key → Int}
    {ds : List (Key × Deployment)} (seen : Key → Observation)
    (shows : ∀ e ∈ ds, (seen e.1).Shows e (ready e.1)) :
    ofObservations text (ds.map fun e => seen e.1) = match lagging? ready ds with
      | none => ⟨true, text.readyReason, text.readyMessage⟩
      | some e => ⟨false, text.notReadyReason, laggingText ready e⟩ := by
  induction ds with
  | nil => rfl
  | cons e ds ih =>
    obtain ⟨he, hrest⟩ := List.forall_mem_cons.mp shows
    unfold ofObservations lagging? at ih ⊢
    rw [List.map_cons, List.find?_cons, List.find?_cons, he.isReady_eq]
    by_cases hready : ready e.1 = e.2.replicas.toInt
    · simp only [hready, decide_true, Bool.not_true, ne_eq, not_true_eq_false, decide_false]
      exact ih hrest
    · simp only [hready, decide_false, Bool.not_false, ne_eq, not_false_eq_true, decide_true,
        waitingFor_of_shows he]

end Verdict

/-! ## §4. Reports -/

/-- After a report the first ready condition is the one that was reported. -/
theorem Report.find?_ready {τ : Type} [DecidableEq τ] {r : Report τ} (h : r.Lawful) {now : String}
    {o q : Object} (reported : r.report? now o = some q) :
    ∃ cs t, (r.form.stored? q.data).map r.form.conditions = some cs ∧
      Condition.find? cs Condition.readyType = some { r.ready with lastTransitionTime := t } := by
  obtain ⟨status, hstored, hnext⟩ := settled_report? h reported
  -- what is stored is what would be reported once more
  have hconditions : r.form.conditions status = Condition.put (r.form.conditions (r.change status))
      { r.ready with lastTransitionTime := some now } := by
    conv_lhs => rw [← hnext now, next_eq, h.form.conditions_with]
  obtain ⟨t, ht⟩ := Condition.exists_renewed
    (Condition.find? (r.form.conditions (r.change status)) Condition.readyType)
    { r.ready with lastTransitionTime := some now }
  refine ⟨r.form.conditions status, t, ?_, ?_⟩
  · rw [hstored]
    rfl
  · rw [hconditions, Condition.find?_put]
    exact congrArg some ht

end Converge
