/-
  Converge.Proofs.Pass.Parts — what each part of a pass leaves, whether it ends or is cut short.

  Every part has one lemma.  It names the ledger and what the store holds under each key when the
  part is done, and the same for every point at which a struck call may cut it short.

  Main statements: `ends_holdIfLinked`, `ends_applyAndObserve` and `ends_report`, the three parts
  of a pass in their order.
-/
import Converge.Pass.Reconcile
import Converge.Proofs.Pass.Held
import Converge.Proofs.Pass.Shaken
import Converge.Proofs.Status.Report

namespace Converge

/-! ## §1. Held roots -/

/-- A root that is held for namespaces. -/
def Object.heldFor (o : Object) (linked : Roster String) : Object :=
  { o with metadata := Finalizer.held o.metadata linked }

theorem Object.face_heldFor (o : Object) (linked : Roster String) :
    (o.heldFor linked).face = o.face.heldFor linked := by
  show _ = { o with metadata := Finalizer.held { o.metadata with resourceVersion := none } linked }
  rw [Finalizer.held_version]
  rfl

theorem Object.heldFor_of_some {o : Object} {linked : Roster String} {m : Metadata}
    (h : Finalizer.hold? o.metadata linked = some m) :
    o.heldFor linked = { o with metadata := m } := by
  unfold heldFor
  rw [Finalizer.held_of_some h]

theorem Object.heldFor_of_none {o : Object} {linked : Roster String}
    (h : Finalizer.hold? o.metadata linked = none) : o.heldFor linked = o := by
  unfold heldFor
  rw [Finalizer.held_of_none h]

/-- A root after the first part of a pass: held while cleanup is on and there is something to
    hold it for. -/
def Object.heldUnder (settings : Settings) (linked : Roster String) (o : Object) : Object :=
  if settings.features.crossNamespaceCleanup && !linked.isEmpty then o.heldFor linked else o

/-- A root with the metadata of one that was held is left as it is. -/
theorem Object.hold?_of_held {settings : Settings} {linked : Roster String} {o q : Object}
    (plain : settings.features.crossNamespaceCleanup = true → ∀ ns ∈ linked, Finalizer.Plain ns)
    (same : q.metadata = (o.heldUnder settings linked).metadata)
    (on : (settings.features.crossNamespaceCleanup && !linked.isEmpty) = true) :
    Finalizer.hold? q.metadata linked = none := by
  unfold heldUnder at same
  rw [if_pos on] at same
  rw [same]
  exact Finalizer.hold?_held (plain (Bool.and_eq_true_iff.mp on).1)

theorem Object.heldUnder_of_held {settings : Settings} {linked : Roster String} {o q : Object}
    (plain : settings.features.crossNamespaceCleanup = true → ∀ ns ∈ linked, Finalizer.Plain ns)
    (same : q.metadata = (o.heldUnder settings linked).metadata) :
    q.heldUnder settings linked = q := by
  by_cases on : (settings.features.crossNamespaceCleanup && !linked.isEmpty) = true
  · have hnone := hold?_of_held plain same on
    unfold heldUnder
    rw [if_pos on, heldFor_of_none hnone]
  · unfold heldUnder
    rw [if_neg on]

namespace Pass

variable {w : World}

/-- A write that the store would take: what it holds is as before or as after the write where the
    write is struck. -/
theorem ends_write {α : Type} {done : α → World → Prop} {fault : PassError → World → Prop}
    {c : StoreCall} {reply : c.Reply} {s : Store} {G : Faces} (alone : w.Alone)
    (answer : w.store.perform c = (.ok reply, s)) (turned : s.face = G) {a : α}
    (written : ∀ w', w.Leads w.ledger G w' → done a w')
    (struck : ∀ w' e, w.Struck w.store.face G w' → fault (.store e) w') :
    ((call c).bind fun _ => Pass.done a).Ends w done fault := by
  subst turned
  refine ends_call alone answer ?_ ?_
  · intro w' leads _
    exact written w' leads
  · intro w' e F shaken hF leads
    refine struck w' e ⟨shaken, ?_⟩
    rcases hF with rfl | rfl
    · exact .inl leads
    · exact .inr leads

theorem ends_holdRoot (alone : w.Alone) {root : Root} {o : Object}
    (here : w.store.face root.key = some o) (linked : Roster String) :
    (holdRoot root linked).Ends w
      (fun _ w' => w.Leads w.ledger (w.store.face.turn root.key (o.heldFor linked)) w')
      (fun _ w' =>
        w.Struck w.store.face (w.store.face.turn root.key (o.heldFor linked)) w') := by
  obtain ⟨p, hp, rfl⟩ := Store.exists_of_face here
  refine ends_get alone root.key ?_ fun w' _ shaken leads => ⟨shaken, .inl leads⟩
  intro v leads objects
  rw [hp, ← Object.face_heldFor]
  cases hn : Finalizer.hold? p.metadata linked with
  | none =>
    -- it is held already
    simp only [hn]
    rw [Object.heldFor_of_none hn, Faces.turn_of_held here]
    exact leads
  | some metadata =>
    simp only [hn]
    have hstored : Table.get? v.store.objects root.key = some p := by rw [objects, hp]
    have hput := v.store.face_put root.key { p with metadata }
    have hversion : metadata.resourceVersion = p.metadata.resourceVersion :=
      Finalizer.hold?_resourceVersion hn
    have hupdate := Store.perform_update (o := { p with metadata }) hstored hversion rfl
    rw [Object.heldFor_of_some hn, ← leads.face]
    refine ends_write leads.alone hupdate hput ?_ ?_
    · intro w' h
      rw [leads.ledger] at h
      exact leads.trans h
    · exact fun w' e h => leads.struck h

/-- The root is held, or as it was where that is cut short. -/
theorem ends_holdIfLinked (alone : w.Alone) {root : Root} {o : Object}
    (here : w.store.face root.key = some o) (settings : Settings) (linked : Roster String) :
    (holdIfLinked settings root linked).Ends w
      (fun _ w' => w.Leads w.ledger (w.store.face.turn root.key (o.heldUnder settings linked)) w')
      (fun _ w' =>
        w.Struck w.store.face (w.store.face.turn root.key (o.heldUnder settings linked)) w') := by
  unfold holdIfLinked Object.heldUnder
  by_cases on : (settings.features.crossNamespaceCleanup && !linked.isEmpty) = true
  · rw [if_pos on, if_pos on]
    exact ((ends_holdRoot alone here linked).mono (fun _ _ h => h) fun _ _ h => h).bind
  · rw [if_neg on, if_neg on, Faces.turn_of_held here]
    exact .refl alone

/-! ## §2. Children -/

theorem ends_settle (alone : w.Alone) {c : Child} (proper : c.Proper) :
    (settle c (Table.get? w.store.objects c.key)).Ends w
      (fun _ w' => w.Leads w.ledger (w.store.face.turn c.key (c.applied (w.store.face c.key))) w')
      (fun _ w' => w.Struck w.store.face
        (w.store.face.turn c.key (c.applied (w.store.face c.key))) w') := by
  have hface : w.store.face c.key = (Table.get? w.store.objects c.key).map Object.face := rfl
  have happlied := c.applied_face (Table.get? w.store.objects c.key)
  rw [hface, happlied]
  cases hg : Table.get? w.store.objects c.key with
  | none =>
    exact ends_write alone (Store.perform_create c.toObject hg)
      (w.store.face_put c.key (c.applied none)) (fun _ leads => leads) fun _ _ h => h
  | some cur =>
    unfold settle Child.applied
    cases hn : c.amend? cur with
    | none =>
      -- nothing is written, and the key holds what it held
      simp only [hn]
      have hsame : w.store.face.turn c.key cur.face = w.store.face := by
        refine Faces.turn_of_held ?_
        rw [hface, hg]
        rfl
      show w.Leads w.ledger (w.store.face.turn c.key cur.face) w
      rw [hsame]
      exact .refl alone
    | some next =>
      simp only [hn]
      obtain ⟨hversion, hstatus⟩ := Child.amend?_same proper hn
      exact ends_write alone (Store.perform_update hg hversion hstatus)
        (w.store.face_put c.key next) (fun _ leads => leads) fun _ _ h => h

/-- One child is applied and noted; where that is cut short it is not noted. -/
theorem ends_apply (alone : w.Alone) {c : Child} (proper : c.Proper) (root : Key) :
    (apply root c).Ends w
      (fun _ w' => w.Leads (w.ledger.noted root c)
        (w.store.face.turn c.key (c.applied (w.store.face c.key))) w')
      (fun _ w' => w.Struck w.store.face
        (w.store.face.turn c.key (c.applied (w.store.face c.key))) w') := by
  refine ends_get alone c.key ?_ fun w' _ shaken leads => ⟨shaken, .inl leads⟩
  intro v leads objects
  have hsettle := ends_settle leads.alone proper
  rw [objects, leads.face] at hsettle
  refine Ends.bind (hsettle.mono ?_ ?_)
  · intro _ u h
    have hu := leads.trans h
    have hledger : u.ledger = w.ledger := h.ledger.trans leads.ledger
    exact ⟨⟨hu.alone, hu.calm, hu.lacking, hu.clock⟩, congrArg (·.noted root c) hledger, h.face⟩
  · exact fun _ u h => leads.struck h

/-- All children are applied and noted.  Where that is cut short, some of them are applied, from
    the first on, and of these some are noted; in a calm world only a shutdown cuts it short. -/
theorem ends_applyAll (alone : w.Alone) {cs : List Child} (proper : ∀ c ∈ cs, c.Proper)
    (root : Key) (t : Tally) :
    (applyAll root cs t).Ends w
      (fun _ w' => (cs ≠ [] → w.cancelled = false) ∧
        w.Leads (w.ledger.notedAll root cs) (w.store.face.lay cs) w')
      (fun _ w' => (w.Calm → w.cancelled = true) ∧ ∃ ds es, ds <+: es ∧ es <+: cs ∧
        w.Leads (w.ledger.notedAll root ds) (w.store.face.lay es) w') := by
  -- by induction on the children; each one starts where the one before it has led
  induction cs generalizing w t with
  | nil => exact ⟨fun h => absurd rfl h, .refl alone⟩
  | cons c cs ih =>
    show (if w.cancelled = true then .fail .cancelled else (apply root c).bind fun outcome =>
      applyAll root cs (t.count outcome) : Pass Tally).Ends _ _ _
    by_cases hoff : w.cancelled = true
    · rw [if_pos hoff]
      exact ⟨fun _ => hoff, [], [], List.prefix_rfl, List.nil_prefix, .refl alone⟩
    · rw [if_neg hoff]
      refine Ends.bind ((ends_apply alone (proper c (by simp)) root).mono ?_ ?_)
      · intro outcome v leads
        have hrest := @ih v leads.alone (fun d hd => proper d (List.mem_cons_of_mem _ hd))
          (t.count outcome)
        rw [leads.ledger, leads.face] at hrest
        refine hrest.mono (fun _ _ h => ⟨fun _ => by simpa using hoff, leads.trans h.2⟩) ?_
        -- cut short among the other children
        rintro _ u ⟨shaken, ds, es, hds, hes, h⟩
        refine ⟨fun calm => ?_, c :: ds, c :: es, ?_, ?_, leads.trans h⟩
        · obtain ⟨hcalm, hsame⟩ := leads.calm calm
          rw [← hsame]
          exact shaken hcalm
        · exact (List.prefix_cons_inj c).mpr hds
        · exact (List.prefix_cons_inj c).mpr hes
      · -- cut short at the first child, which may be applied but is not noted
        rintro _ u ⟨shaken, h⟩
        refine ⟨fun calm => absurd calm shaken, [], ?_⟩
        rcases h with h | h
        · exact ⟨[], List.prefix_rfl, List.nil_prefix, h⟩
        · exact ⟨[c], List.nil_prefix, (List.prefix_cons_inj c).mpr List.nil_prefix, h⟩

/-! ## §3. Observing -/

theorem observation_face (key : Key) (o : Option Object) :
    Observation.ofObject key (o.map Object.face) = Observation.ofObject key o := by
  cases o <;> rfl

/-- Workloads are observed as the store holds them. -/
theorem ends_observe (alone : w.Alone) (keys : List Key) :
    (observe keys).Ends w
      (fun seen w' => seen = keys.map (fun k => Observation.ofObject k (w.store.face k)) ∧
        w.Leads w.ledger w.store.face w')
      (fun _ w' => ¬ w.Calm ∧ w.Leads w.ledger w.store.face w') := by
  induction keys generalizing w with
  | nil => exact ⟨rfl, .refl alone⟩
  | cons key keys ih =>
    refine ends_get alone key ?_ fun w' _ shaken leads => ⟨shaken, leads⟩
    intro v leads objects
    have hrest := @ih v leads.alone
    rw [leads.ledger, leads.face] at hrest
    refine Ends.bind (hrest.mono ?_ ?_)
    · rintro seen u ⟨rfl, h⟩
      refine ⟨?_, leads.trans h⟩
      rw [List.map_cons]
      exact congrArg (· :: _) (observation_face key _).symm
    · rintro _ u ⟨shaken, h⟩
      exact ⟨fun calm => shaken (leads.calm calm).1, leads.trans h⟩

/-- Children are applied and noted, and then observed.  This is cut short at a child, or when all
    of them are applied and noted. -/
theorem ends_applyAndObserve (alone : w.Alone) {cs : List Child} (proper : ∀ c ∈ cs, c.Proper)
    (root : Root) :
    (applyAndObserve root cs).Ends w
      (fun seen w' => (cs ≠ [] → w.cancelled = false) ∧
        seen.2 = ((cs.filter (·.tracked)).map Child.key).map
          (fun k => Observation.ofObject k (w.store.face.lay cs k)) ∧
        w.Leads (w.ledger.notedAll root.key cs) (w.store.face.lay cs) w')
      (fun _ w' => (w.Calm → w.cancelled = true) ∧ ∃ ds es, ds <+: es ∧ es <+: cs ∧
        w.Leads (w.ledger.notedAll root.key ds) (w.store.face.lay es) w') := by
  refine Ends.bind ((ends_applyAll alone proper root.key {}).mono ?_ fun _ _ h => h)
  rintro tally v ⟨hon, leads⟩
  have hobserve := ends_observe leads.alone ((cs.filter (·.tracked)).map Child.key)
  rw [leads.face] at hobserve
  refine Ends.bind (hobserve.mono ?_ ?_)
  · rintro seen u ⟨hseen, hu⟩
    rw [leads.ledger] at hu
    exact ⟨hon, hseen, leads.trans hu⟩
  · rintro _ u ⟨shaken, hu⟩
    rw [leads.ledger] at hu
    exact ⟨fun calm => absurd (leads.calm calm).1 shaken, cs, cs, List.prefix_rfl,
      List.prefix_rfl, leads.trans hu⟩

/-! ## §4. Reporting -/

/-- The root is reported on, unless its status cannot be read; where a call was struck the root is
    as before or as after the report. -/
theorem ends_writeStatus {τ : Type} [DecidableEq τ] (alone : w.Alone) (r : Report τ) {root : Key}
    {o : Object} (here : w.store.face root = some o) (now : String) :
    (writeStatus r.form root r.generation r.verdict now r.change).Ends w
      (fun outcome w' => outcome ≠ .rootGone ∧ ∃ q, r.report? now o = some q ∧
        w.Leads w.ledger (w.store.face.turn root q) w')
      (fun e w' =>
        (e = .unreadableStatus ∧ r.report? now o = none ∧ w.Leads w.ledger w.store.face w') ∨
        (¬ w.Calm ∧ (w.Leads w.ledger w.store.face w' ∨ ∃ q, r.report? now o = some q ∧
          w.Leads w.ledger (w.store.face.turn root q) w'))) := by
  obtain ⟨p, hp, rfl⟩ := Store.exists_of_face here
  refine ends_get alone root ?_ fun w' _ shaken leads => .inr ⟨shaken, .inl leads⟩
  intro v leads objects
  rw [hp, Report.report?_face]
  unfold Report.report?
  cases hstored : r.form.stored? p.data with
  | none =>
    simp only [hstored]
    exact .inl ⟨rfl, rfl, leads⟩
  | some status =>
    simp only [hstored, Option.map_some]
    show (if r.next now status = status then .done .unchanged
      else (call (.updateStatus root
        { p with data := p.data.setMember "status" (r.form.write (r.next now status)) })).bind
          fun _ => .done .written : Pass StatusWrite).Ends _ _ _
    by_cases hnext : r.next now status = status
    · rw [if_pos hnext, if_pos hnext]
      refine ⟨nofun, p.face, rfl, ?_⟩
      rw [Faces.turn_of_held here]
      exact leads
    · rw [if_neg hnext, if_neg hnext]
      have hv : Table.get? v.store.objects root = some p := by rw [objects, hp]
      refine ends_write leads.alone (Store.perform_updateStatus hv)
        (v.store.face_put root
          { p with data := p.data.setMember "status" (r.form.write (r.next now status)) }) ?_ ?_
      · intro w' h
        rw [leads.face, leads.ledger] at h
        exact ⟨nofun, _, rfl, leads.trans h⟩
      · intro w' e h
        rw [leads.face] at h
        obtain ⟨shaken, h⟩ := leads.struck h
        refine .inr ⟨shaken, ?_⟩
        rcases h with h | h
        · exact .inl h
        · exact .inr ⟨_, rfl, h⟩

/-- The end of a pass over a root that is there: it tells of the children that were written. -/
theorem finish_of_there (settings : Settings) (root : Root) (t : Tally) {outcome : StatusWrite}
    (there : outcome ≠ .rootGone) : finish settings root t outcome
      = if t.changed then (request (.announce root (appliedEvent t))).bind fun _ =>
          .done (.after settings.requeueSecs)
        else .done (.after settings.requeueSecs) := by
  cases outcome with
  | rootGone => exact absurd rfl there
  | written | unchanged => rfl

theorem ends_finish (alone : w.Alone) (settings : Settings) (root : Root) (t : Tally)
    {outcome : StatusWrite} (there : outcome ≠ .rootGone) :
    (finish settings root t outcome).Ends w
      (fun look w' => look = .after settings.requeueSecs ∧ w.Leads w.ledger w.store.face w')
      (fun _ _ => False) := by
  rw [finish_of_there settings root t there]
  by_cases hchanged : t.changed = true
  · rw [if_pos hchanged]
    exact ⟨rfl, ⟨alone, fun calm => ⟨calm, rfl⟩, rfl, rfl⟩, rfl, rfl⟩
  · rw [if_neg hchanged]
    exact ⟨rfl, .refl alone⟩

/-- The rest of a pass, once the children are observed. -/
theorem ends_report {τ : Type} [DecidableEq τ] (alone : w.Alone) (r : Report τ) {root : Root}
    {o : Object} (here : w.store.face root.key = some o) (settings : Settings) (t : Tally) :
    ((request .clock).bind fun now =>
      (writeStatus r.form root.key r.generation r.verdict now r.change).bind fun outcome =>
        finish settings root t outcome).Ends w
      (fun look w' => look = .after settings.requeueSecs ∧
        ∃ q, r.report? w.clock o = some q ∧ w.Leads w.ledger (w.store.face.turn root.key q) w')
      (fun e w' =>
        (e = .unreadableStatus ∧ r.report? w.clock o = none ∧
          w.Leads w.ledger w.store.face w') ∨
        (¬ w.Calm ∧ (w.Leads w.ledger w.store.face w' ∨ ∃ q, r.report? w.clock o = some q ∧
          w.Leads w.ledger (w.store.face.turn root.key q) w'))) := by
  show ((writeStatus r.form root.key r.generation r.verdict w.clock r.change).bind
    fun outcome => finish settings root t outcome).Ends w _ _
  refine Ends.bind ((ends_writeStatus alone r here w.clock).mono ?_ fun _ _ h => h)
  rintro outcome v ⟨hthere, q, hq, leads⟩
  refine (ends_finish leads.alone settings root t hthere).mono ?_ fun _ _ h => absurd h id
  rintro look u ⟨hlook, hu⟩
  rw [leads.ledger, leads.face] at hu
  exact ⟨hlook, q, hq, leads.trans hu⟩

end Pass

end Converge
