/-
  Converge.Proofs.Pass.Revised — a status is written if and only if there is something to say.

  What is said of a root is its summary and its ready condition.  The time is no part of it: what
  is compared is the status in which the ready condition keeps its time, whatever else of the
  condition is new.  So resyncs write nothing, and every change is written once.

  Main statements:
    * `Condition.put_eq_self_iff` — a condition that is put changes nothing but a revision does.
    * `Report.next_eq_self_iff` — there is something to write where the revised status differs.
    * `Report.Made.writeStatus` — what a status write does to a root that is stored.
-/
import Converge.Proofs.Pass.Shaken
import Converge.Proofs.Status.Report

namespace Converge

/-! ## §1. Revised conditions -/

namespace Condition

/-- What is said in `next`, under the type and the time of a condition. -/
def restate (next c : Condition) : Condition :=
  { c with
    status := next.status
    reason := next.reason
    message := next.message
    observedGeneration := next.observedGeneration }

/-- The conditions with the first one of a type restated, or with a new one at the end where there
    is none of the type. -/
def revise (cs : List Condition) (next : Condition) : List Condition :=
  match cs.findIdx? fun c => c.type = next.type with
  | some i => cs.modify i next.restate
  | none => cs ++ [next]

theorem revise_cons (c next : Condition) (rest : List Condition) :
    revise (c :: rest) next
      = if c.type = next.type then next.restate c :: rest else c :: revise rest next := by
  unfold revise
  rw [List.findIdx?_cons]
  by_cases htype : c.type = next.type
  · simp only [htype, decide_true, if_true]
    rfl
  · simp only [htype, decide_false, Bool.false_eq_true, if_false]
    cases rest.findIdx? fun c => c.type = next.type <;> rfl

/-- What is kept of a condition is what it was if and only if it is restated as it was.  Its time
    moves only with its truth value. -/
theorem renewed_eq_self_iff {c next : Condition} (same : c.type = next.type) :
    renewed (some c) next = c ↔ next.restate c = c := by
  by_cases hstatus : c.status = next.status
  · have hrestate : next.restate c = { next with lastTransitionTime := c.lastTransitionTime } := by
      unfold restate
      rw [← same]
    rw [renewed_of_status hstatus, hrestate]
  · -- both have the truth value of `next`, and `c` has another one
    rw [renewed_of_flip hstatus]
    refine iff_of_false ?_ ?_
    · exact fun h => hstatus (congrArg status h).symm
    · exact fun h => hstatus (congrArg status h).symm

/-- A condition that is put at whatever time changes nothing if and only if its revision does
    not. -/
theorem put_eq_self_iff (cs : List Condition) (next : Condition) (t : Option String) :
    put cs { next with lastTransitionTime := t } = cs ↔ revise cs next = cs := by
  induction cs with
  | nil => exact iff_of_false (List.cons_ne_nil _ _) (List.cons_ne_nil _ _)
  | cons c rest ih =>
    rw [put_cons, revise_cons]
    by_cases htype : c.type = next.type
    · have hrenewed : renewed (some c) { next with lastTransitionTime := t } = c
          ↔ next.restate c = c := renewed_eq_self_iff htype
      rw [if_pos htype, if_pos htype]
      simp only [List.cons.injEq, and_true, hrenewed]
    · rw [if_neg htype, if_neg htype, List.cons_inj_right, List.cons_inj_right]
      exact ih

/-- Conditions of other types stay as they are, and in their order. -/
theorem filter_put (cs : List Condition) (next : Condition) :
    (put cs next).filter (fun c => c.type ≠ next.type)
      = cs.filter fun c => c.type ≠ next.type := by
  induction cs with
  | nil => simp [put]
  | cons c rest ih =>
    rw [put_cons]
    by_cases htype : c.type = next.type
    · rw [if_pos htype, List.filter_cons_of_neg (by simp), List.filter_cons_of_neg (by simp [htype])]
    · rw [if_neg htype, List.filter_cons_of_pos (by simpa using htype),
        List.filter_cons_of_pos (by simpa using htype), ih]

end Condition

/-! ## §2. Revised statuses -/

namespace Report

variable {τ : Type}

/-- The change leaves the conditions to the verdict. -/
def Keeps (r : Report τ) : Prop := ∀ s, r.form.conditions (r.change s) = r.form.conditions s

/-- The status with the change folded in, and with the ready condition revised. -/
def revised (r : Report τ) (status : τ) : τ :=
  r.form.withConditions (r.change status)
    (Condition.revise (r.form.conditions (r.change status)) r.ready)

/-- A report leaves a status as it is, at whatever time, if and only if nothing is revised. -/
theorem next_eq_self_iff {r : Report τ} (h : r.form.Lawful) (keeps : r.Keeps) (now : String)
    (status : τ) : r.next now status = status ↔ r.revised status = status := by
  -- conditions that are set are those of the status only if they were before
  have hset (cs : List Condition) : r.form.withConditions (r.change status) cs = status ↔
      cs = r.form.conditions status ∧
        r.form.withConditions (r.change status) (r.form.conditions status) = status := by
    constructor
    · intro heq
      have hcs : cs = r.form.conditions status := by
        rw [← h.conditions_with (r.change status) cs, heq]
      exact ⟨hcs, hcs ▸ heq⟩
    · rintro ⟨rfl, heq⟩
      exact heq
  have hput := Condition.put_eq_self_iff (r.form.conditions status) r.ready (some now)
  rw [next_eq]
  unfold revised
  rw [keeps]
  exact (hset _).trans ((and_congr_left' hput).trans (hset _).symm)

/-- A report leaves all conditions but the ready condition alone. -/
theorem filter_next {r : Report τ} (h : r.form.Lawful) (keeps : r.Keeps) (now : String)
    (status : τ) :
    (r.form.conditions (r.next now status)).filter (fun c => c.type ≠ Condition.readyType)
      = (r.form.conditions status).filter fun c => c.type ≠ Condition.readyType := by
  rw [next_eq, h.conditions_with, keeps]
  exact Condition.filter_put _ { r.ready with lastTransitionTime := some now }

/-- The reports that are made on roots: of either kind, and on a SimulatorDeployment with a summary
    or without. -/
inductive Made : {τ : Type} → Report τ → Prop
  | install (verdict : Verdict) (generation : Option Int64) :
    Made (⟨Install.statusForm, id, verdict, generation⟩ : Report Install.Status)
  | simulator (verdict : Verdict) (generation : Option Int64) :
    Made (⟨Simulator.statusForm, id, verdict, generation⟩ : Report Simulator.Status)
  | summary (root : Root) (spec : Simulator.Spec) (observations : List Observation)
      (verdict : Verdict) (generation : Option Int64) :
    Made (⟨Simulator.statusForm, spec.summarize root observations, verdict, generation⟩ :
      Report Simulator.Status)

theorem Made.lawful {r : Report τ} (made : r.Made) : r.Lawful := by
  cases made with
  | install => exact ⟨Install.statusForm_lawful, fun _ _ => rfl⟩
  | simulator => exact ⟨Simulator.statusForm_lawful, fun _ _ => rfl⟩
  | summary => exact ⟨Simulator.statusForm_lawful, fun _ _ => rfl⟩

theorem Made.keeps {r : Report τ} (made : r.Made) : r.Keeps := by
  cases made with
  | install => exact fun _ => rfl
  | simulator => exact fun _ => rfl
  | summary => exact fun _ => rfl

/-! ## §3. A status write -/

variable [DecidableEq τ]

/-- Write a report to the root under a key. -/
def write (r : Report τ) (key : Key) (now : String) : Pass StatusWrite :=
  Pass.writeStatus r.form key r.generation r.verdict now r.change

/-- The object with the status after a report. -/
def applied (r : Report τ) (now : String) (status : τ) (o : Object) : Object :=
  { o with data := o.data.setMember "status" (r.form.write (r.next now status)) }

/-- In a calm world a report is written to a stored root unless its status cannot be read, or has
    nothing new in it. -/
theorem run_write {w : World} (calm : w.Calm) (r : Report τ) {key : Key} {o : Object}
    (here : Table.get? w.store.objects key = some o) (now : String) :
    (r.write key now).run World.handle w = match r.form.stored? o.data with
      | none => (.error .unreadableStatus, { w with store := w.store.countRead })
      | some status =>
        if r.next now status = status then (.ok .unchanged, { w with store := w.store.countRead })
        else (.ok .written, { w with
          store := (w.store.countRead.put key (r.applied now status o)).log .updateStatus key }) := by
  have hread : w.store.perform (.get key) = (.ok (some o), w.store.countRead) := by
    show (Except.ok (Table.get? w.store.objects key), _) = _
    rw [here]
  refine (Pass.run_call calm hread _).trans ?_
  cases hstored : r.form.stored? o.data with
  | none =>
    simp only [hstored]
    rfl
  | some status =>
    simp only [hstored]
    show (if r.next now status = status then Pass.done StatusWrite.unchanged
      else (Pass.call (.updateStatus key (r.applied now status o))).bind fun _ =>
        Pass.done StatusWrite.written).run World.handle { w with store := w.store.countRead } = _
    by_cases hsame : r.next now status = status
    · rw [if_pos hsame, if_pos hsame]
      rfl
    · rw [if_neg hsame, if_neg hsame]
      -- a read leaves the objects, so that the write finds the version that was read
      have hcalm : World.Calm { w with store := w.store.countRead } := calm
      exact Pass.run_call hcalm (Store.perform_updateStatus (s := w.store.countRead) here) _

end Report

/-- A status is written over `o`, which is stored under a key, and leaves `q` there. -/
structure Store.Restated (s : Store) (key : Key) (o q : Object) (s' : Store) : Prop where
  /-- It is the one write that is made. -/
  writes : s'.writes = s.writes ++ [(.updateStatus, key)]
  /-- All other objects stay. -/
  objects : s'.objects = Table.insert s.objects key q
  types : q.types = o.types
  /-- Only the version moves in the metadata. -/
  metadata : { q.metadata with resourceVersion := o.metadata.resourceVersion } = o.metadata
  /-- Only the status moves in the data. -/
  data : ∀ k, k ≠ "status" → q.data.get? k = o.data.get? k

theorem Store.restated_put (s : Store) (key : Key) (o : Object) (status : Json) :
    s.Restated key o (s.stamped { o with data := o.data.setMember "status" status })
      ((s.countRead.put key { o with data := o.data.setMember "status" status }).log
        .updateStatus key) where
  writes := rfl
  objects := rfl
  types := rfl
  metadata := rfl
  data := by
    intro k hk
    show (o.data.setMember "status" status).get? k = _
    rw [Json.get?_setMember, if_neg (Ne.symm hk)]

/-- A report is written to a root that is stored, of either kind, if and only if the revised status
    is not the status that is there.  What is written has all other conditions in it and leaves the
    rest of the root alone, and the same report finds nothing to write at any later time.  If the
    status cannot be read, the write fails, and the store stays. -/
theorem Report.write_changeOnly {τ : Type} [DecidableEq τ] {r : Report τ} (made : r.Made)
    {w : World} (calm : w.Calm) {key : Key} {o : Object}
    (here : Table.get? w.store.objects key = some o) (now : String) :
    (r.form.stored? o.data = none → (r.write key now).run World.handle w
      = (.error .unreadableStatus, { w with store := w.store.countRead })) ∧
    ∀ status, r.form.stored? o.data = some status →
      (r.revised status = status → (r.write key now).run World.handle w
        = (.ok .unchanged, { w with store := w.store.countRead })) ∧
      (r.revised status ≠ status → ∃ s q,
        (r.write key now).run World.handle w = (.ok .written, { w with store := s }) ∧
        w.store.Restated key o q s ∧
        r.form.stored? q.data = some (r.next now status) ∧
        (r.form.conditions (r.next now status)).filter (fun c => c.type ≠ Condition.readyType)
          = (r.form.conditions status).filter (fun c => c.type ≠ Condition.readyType) ∧
        ∀ t, (r.write key t).run World.handle { w with store := s }
          = (.ok .unchanged, { w with store := s.countRead })) := by
  have lawful := made.lawful
  have hrun := run_write calm r here now
  refine ⟨?unreadable, ?readable⟩
  case unreadable =>
    intro hstored
    rw [hrun, hstored]
  case readable =>
    intro status hstored
    rw [hstored] at hrun
    dsimp only at hrun
    have hsame := next_eq_self_iff lawful.form made.keeps now status
    refine ⟨?unchanged, ?written⟩
    case unchanged =>
      intro hrevised
      rw [hrun, if_pos (hsame.mpr hrevised)]
    case written =>
      intro hrevised
      rw [if_neg fun h => hrevised (hsame.mp h)] at hrun
      -- the next write reads `q`, whose status is a report already
      let s := (w.store.countRead.put key (r.applied now status o)).log .updateStatus key
      let q := w.store.stamped (r.applied now status o)
      have hstatus : r.form.stored? q.data = some (r.next now status) :=
        lawful.form.stored?_written o.data _
      have hq : Table.get? s.objects key = some q := by
        show Table.get? (Table.insert w.store.objects key q) key = some q
        rw [Table.get?_insert, if_pos rfl]
      refine ⟨s, q, hrun, w.store.restated_put key o _, hstatus,
        filter_next lawful.form made.keeps now status, ?again⟩
      case again =>
        intro t
        have hcalm : World.Calm { w with store := s } := calm
        rw [run_write hcalm r hq t, hstatus]
        dsimp only
        rw [if_pos (next_next lawful now t status)]

/-! ## §4. A small world -/

/-- A SimulatorDeployment whose status has a condition of another controller and one that is out of
    date, together with a member that nobody knows. -/
def staleObject : Object where
  metadata := { name := some "sim", ns := some "default", resourceVersion := some "7" }
  data := .obj [("spec", .obj []), ("status", .obj [("conditions", .arr [
    .obj [("status", .str "True"), ("type", .str "Synced")],
    .obj [("lastTransitionTime", .str "t0"), ("status", .str "True"), ("type", .str "Ready")]]),
    ("phase", .str "Running")])]

def staleStatus : Simulator.Status where
  conditions := [{ type := "Synced", status := .yes },
    { type := "Ready", status := .yes, lastTransitionTime := some "t0" }]

def staleKey : Key := ⟨.simulatorDeployment, "default", "sim"⟩

def staleWorld : World where
  store := { objects := [(staleKey, staleObject)], version := 7 }

/-- What there is to say: the deployment is not ready, and has one replica of two. -/
def staleReport : Report Simulator.Status where
  form := Simulator.statusForm
  change := (({} : Simulator.Spec).withDefaults "sim").summarize
    ⟨.simulatorDeployment, "sim", "default", "u-1"⟩
    [⟨⟨.deployment, "default", "sim"⟩, some 2, 1, 1⟩]
  verdict := ⟨false, "DeploymentNotReady", "waiting"⟩
  generation := some 4

theorem write_changeOnly_stale :
    staleReport.Made ∧ staleWorld.Calm ∧
      Table.get? staleWorld.store.objects staleKey = some staleObject ∧
      staleReport.form.stored? staleObject.data = some staleStatus ∧
      staleReport.revised staleStatus ≠ staleStatus ∧
      ∃ s q,
        (staleReport.write staleKey "t1").run World.handle staleWorld
          = (.ok .written, { staleWorld with store := s }) ∧
        staleWorld.store.Restated staleKey staleObject q s ∧
        ∀ t, (staleReport.write staleKey t).run World.handle { staleWorld with store := s }
          = (.ok .unchanged, { staleWorld with store := s.countRead }) := by
  have made : staleReport.Made := .summary _ _ _ _ _
  have calm : staleWorld.Calm := rfl
  have here : Table.get? staleWorld.store.objects staleKey = some staleObject := by decide +kernel
  have hstored : staleReport.form.stored? staleObject.data = some staleStatus := by decide +kernel
  have hrevised : staleReport.revised staleStatus ≠ staleStatus := by decide +kernel
  obtain ⟨s, q, hrun, hrestated, _, _, hagain⟩ :=
    ((Report.write_changeOnly made calm here "t1").2 _ hstored).2 hrevised
  exact ⟨made, calm, here, hstored, hrevised, s, q, hrun, hrestated, hagain⟩

end Converge
