/-
  Converge.Proofs.Pass.Beside — a pass beside others that leave its part of the world alone.

  Others may do what they like outside the part: write other objects and so use up versions, note
  children for other roots, tell of other roots, let time pass.  Of all this the pass sees nothing.
  What it finds, what it leaves and how it ends are functions of its part alone.

  Main statements:
    * `Plan.beside_goOn` — how a pass goes on once its root is held, and what it leaves.
    * `RootResource.makes_pass` — a pass over a root of either kind has one end and leaves one look
      of its part, but for times.
-/
import Converge.Proofs.Pass.Exchanges
import Converge.Proofs.Pass.Footprint
import Converge.Proofs.Pass.Retry

namespace Converge

/-! ## §1. Views of a part -/

/-- What was told of a root. -/
def World.told (w : World) (root : Root) : List Event :=
  (w.events.filter fun e => e.1 = root).map (·.2)

/-- Others act: the part stays as it is, and so does what is common to all. -/
structure World.Beside (P : Part) (w v : World) : Prop where
  disturbances : v.disturbances = w.disturbances
  cancelled : v.cancelled = w.cancelled
  lacking : v.lacking = w.lacking
  objects : ∀ k, P.owns k → Table.get? v.store.objects k = Table.get? w.store.objects k
  listed : Table.get? v.ledger P.root.key = Table.get? w.ledger P.root.key
  told : v.told P.root = w.told P.root

/-- A world in which others leave a part alone. -/
def Scene.beside (P : Part) : Scene World where
  handle := World.handle
  others := World.Beside P
  still _ := ⟨rfl, rfl, rfl, fun _ _ => rfl, rfl, rfl⟩
  further h g := ⟨g.disturbances.trans h.disturbances, g.cancelled.trans h.cancelled,
    g.lacking.trans h.lacking, fun k hk => (g.objects k hk).trans (h.objects k hk),
    g.listed.trans h.listed, g.told.trans h.told⟩

/-- What the world looks like from a part: the faces of its keys, the children listed for its root
    and what was told of it. -/
structure View where
  cancelled : Bool
  lacking : Option (List Kind)
  faces : Faces
  listed : Option (Table Key Bool)
  told : List Event

namespace View

/-- One key holds `o`. -/
def turn (V : View) (key : Key) (o : Object) : View := { V with faces := V.faces.turn key o }

/-- A child is noted. -/
def note (V : View) (c : Child) : View :=
  { V with listed := some (Table.insert (V.listed.getD []) c.key c.link.isOwned) }

/-- An event is told. -/
def tell (V : View) (event : Event) : View := { V with told := V.told ++ [event] }

theorem turn_of_held {V : View} {key : Key} {o : Object} (h : V.faces key = some o) :
    V.turn key o = V := by
  unfold turn
  rw [Faces.turn_of_held h]

end View

/-- A calm world that looks so from a part. -/
structure World.Looks (P : Part) (V : View) (w : World) : Prop where
  calm : w.Calm
  cancelled : w.cancelled = V.cancelled
  lacking : w.lacking = V.lacking
  face : ∀ k, P.owns k → w.store.face k = V.faces k
  listed : Table.get? w.ledger P.root.key = V.listed
  told : w.told P.root = V.told

/-- What a world looks like. -/
def World.view (w : World) (root : Root) : View where
  cancelled := w.cancelled
  lacking := w.lacking
  faces := w.store.face
  listed := Table.get? w.ledger root.key
  told := w.told root

theorem World.Calm.looks {w : World} (calm : w.Calm) (P : Part) : w.Looks P (w.view P.root) :=
  ⟨calm, rfl, rfl, fun _ _ => rfl, rfl, rfl⟩

namespace World.Looks

variable {P : Part} {V : View} {w v : World}

/-- Others do not change the look. -/
theorem beside (h : w.Looks P V) (others : w.Beside P v) : v.Looks P V where
  calm := others.disturbances.trans h.calm
  cancelled := others.cancelled.trans h.cancelled
  lacking := others.lacking.trans h.lacking
  face := by
    intro k hk
    rw [← h.face k hk]
    exact congrArg (Option.map Object.face) (others.objects k hk)
  listed := others.listed.trans h.listed
  told := others.told.trans h.told

theorem put (h : w.Looks P V) {key : Key} (o : Object) (op : WriteOp) :
    World.Looks P (V.turn key o.face) { w with store := (w.store.put key o).log op key } where
  calm := h.calm
  cancelled := h.cancelled
  lacking := h.lacking
  face := by
    intro k hk
    show (w.store.put key o).face k = V.faces.turn key o.face k
    rw [Store.face_put]
    -- only the key that is written looks different
    by_cases hkey : key = k
    · subst hkey
      rw [Faces.turn_self, Faces.turn_self]
    · rw [Faces.turn_of_ne _ hkey, Faces.turn_of_ne _ hkey]
      exact h.face k hk
  listed := h.listed
  told := h.told

theorem note (h : w.Looks P V) (c : Child) :
    World.Looks P (V.note c) { w with ledger := w.ledger.noted P.root.key c } where
  calm := h.calm
  cancelled := h.cancelled
  lacking := h.lacking
  face := h.face
  listed := by
    show Table.get? (Ledger.record _ _ _ _) _ = some _
    -- the child is added to what is listed for the root
    unfold Ledger.record Ledger.children
    rw [Table.get?_insert, if_pos rfl, h.listed]
  told := h.told

theorem tell (h : w.Looks P V) (event : Event) :
    World.Looks P (V.tell event) { w with events := w.events ++ [(P.root, event)] } where
  calm := h.calm
  cancelled := h.cancelled
  lacking := h.lacking
  face := h.face
  listed := h.listed
  told := by
    show ((w.events ++ [(P.root, event)]).filter fun e => e.1 = P.root).map (·.2)
      = V.told ++ [event]
    rw [List.filter_append, List.map_append, ← h.told]
    simp [World.told]

theorem capabilities {U : View} (h : w.Looks P V) (g : v.Looks P U)
    (same : V.lacking = U.lacking) : w.capabilities = v.capabilities :=
  World.capabilities_of_lacking (h.lacking.trans (same.trans g.lacking.symm))

end World.Looks

/-! ## §2. Requests -/

namespace Pass

variable {α : Type} {P : Part} {V : View} {w : World} {done : α → World → Prop}
  {fault : PassError → World → Prop}

/-- How a pass beside others ends.  It keeps to its part, and none of its calls meets a fault. -/
def AmidBeside (P : Part) (p : Pass α) (w : World) (done : α → World → Prop)
    (fault : PassError → World → Prop) : Prop :=
  p.Amid (.beside P) (fun r v => r.Stays P ∧ Exchange.fault? ⟨r, v⟩ = none) w done fault

theorem AmidBeside.bind {β : Type} {p : Pass α} {f : α → Pass β} {after : β → World → Prop}
    (h : p.AmidBeside P w done fault)
    (next : ∀ a v, done a v → (f a).AmidBeside P v after fault) :
    (p.bind f).AmidBeside P w after fault := Amid.bind h next

theorem AmidBeside.mono {p : Pass α} {done' : α → World → Prop}
    {fault' : PassError → World → Prop} (h : p.AmidBeside P w done fault)
    (hdone : ∀ a v, done a v → done' a v) (hfault : ∀ e v, fault e v → fault' e v) :
    p.AmidBeside P w done' fault' := Amid.mono h (fun _ _ h => h) hdone hfault

/-- Any request but a store call. -/
theorem beside_request {r : Request} {next : r.Reply → Pass α} (looks : w.Looks P V)
    (stays : r.Stays P) (harmless : ∀ v, Exchange.fault? ⟨r, v⟩ = none)
    (answered : ∀ v : World, v.Looks P V →
      (next (World.handle r v).1).AmidBeside P (World.handle r v).2 done fault) :
    ((request r).bind next).AmidBeside P w done fault :=
  fun v others => ⟨⟨stays, harmless v⟩, answered v (looks.beside others)⟩

/-- A read finds what the part looks like. -/
theorem beside_get {key : Key} {next : Option Object → Pass α} (looks : w.Looks P V)
    (owned : P.owns key)
    (answered : ∀ v : World, v.Looks P V →
      (Table.get? v.store.objects key).map Object.face = V.faces key →
      (next (Table.get? v.store.objects key)).AmidBeside P v done fault) :
    ((call (.get key)).bind next).AmidBeside P w done fault := by
  -- a read changes nothing but the count of reads
  have hget : ∀ u : World, u.Calm → World.handle (.call (.get key)) u
      = (.ok (Table.get? u.store.objects key), { u with store := u.store.countRead }) :=
    fun u calm => World.handle_call calm (.get key)
  refine amid_call ?_ ?_ ?_
  · intro u others
    refine ⟨trivial, ?_⟩
    rw [Exchange.fault?_call (looks.beside others).calm]
    rfl
  · intro u stored v others hreply
    have hu : u.Looks P V := looks.beside others
    have hfound := (hget u hu.calm).symm.trans hreply
    injection hfound with hstored hv
    injection hstored with hstored
    subst hstored hv
    have hlooks : World.Looks P V { u with store := u.store.countRead } :=
      ⟨hu.calm, hu.cancelled, hu.lacking, hu.face, hu.listed, hu.told⟩
    exact answered _ hlooks (hu.face key owned)
  · intro u e v others hreply
    have hfound := (hget u (looks.beside others).calm).symm.trans hreply
    exact absurd (congrArg Prod.fst hfound) nofun

/-- A write that the store takes, as the key is the pass's own. -/
theorem beside_write {c : StoreCall} {key : Key} {o : Object} (looks : w.Looks P V)
    (stays : (Request.call c).Stays P) (takes : ∀ v : World, w.Beside P v → ∃ reply op,
      v.store.perform c = (.ok reply, (v.store.put key o).log op key)) (a : α) :
    ((call c).bind fun _ => Pass.done a).AmidBeside P w
      (fun b v => b = a ∧ v.Looks P (V.turn key o.face)) fun _ _ => False := by
  -- others leave the key alone, so that the store takes the write after them as well
  have hhandle : ∀ v : World, w.Beside P v → ∃ reply op, World.handle (.call c) v
      = (.ok reply, { v with store := (v.store.put key o).log op key }) := by
    intro v others
    obtain ⟨reply, op, htakes⟩ := takes v others
    refine ⟨reply, op, ?_⟩
    rw [World.handle_call (looks.beside others).calm, htakes]
  refine amid_call ?_ ?_ ?_
  · intro u others
    obtain ⟨reply, op, htakes⟩ := takes u others
    refine ⟨stays, ?_⟩
    rw [Exchange.fault?_call (looks.beside others).calm, htakes]
  · intro u reply v others hreply
    obtain ⟨p, op, htaken⟩ := hhandle u others
    have hv := congrArg Prod.snd (htaken.symm.trans hreply)
    subst hv
    exact ⟨rfl, (looks.beside others).put o op⟩
  · intro u e v others hreply
    obtain ⟨p, op, htaken⟩ := hhandle u others
    exact absurd (congrArg Prod.fst (htaken.symm.trans hreply)) nofun

/-! ## §3. The parts of a pass -/

/-- The root is held. -/
theorem beside_holdRoot (looks : w.Looks P V) {o : Object} (here : V.faces P.root.key = some o)
    (linked : Roster String) :
    (holdRoot P.root linked).AmidBeside P w
      (fun _ v => v.Looks P (V.turn P.root.key (o.heldFor linked))) fun _ _ => False := by
  refine beside_get looks P.owns_root ?_
  intro v hlooks hface
  rw [here] at hface
  obtain ⟨p, hp, rfl⟩ := Option.map_eq_some_iff.mp hface
  rw [hp, ← Object.face_heldFor]
  cases hm : Finalizer.hold? p.metadata linked with
  | none =>
    -- it is held already
    simp only [hm]
    rw [Object.heldFor_of_none hm, View.turn_of_held here]
    exact hlooks
  | some m =>
    simp only [hm]
    rw [Object.heldFor_of_some hm]
    refine (beside_write hlooks (Request.stays_update P.owns_root _) ?_ true).mono
      (fun _ _ h => h.2) fun _ _ h => absurd h id
    intro u others
    have hu : Table.get? u.store.objects P.root.key = some p := by
      rw [others.objects _ P.owns_root, hp]
    exact ⟨_, _, Store.perform_update hu (Finalizer.hold?_resourceVersion hm) rfl⟩

theorem beside_holdIfLinked (looks : w.Looks P V) {o : Object}
    (here : V.faces P.root.key = some o) (settings : Settings) (linked : Roster String) :
    (holdIfLinked settings P.root linked).AmidBeside P w
      (fun _ v => v.Looks P (V.turn P.root.key (o.heldUnder settings linked)))
      fun _ _ => False := by
  unfold holdIfLinked Object.heldUnder
  by_cases on : (settings.features.crossNamespaceCleanup && !linked.isEmpty) = true
  · rw [if_pos on, if_pos on]
    exact (beside_holdRoot looks here linked).bind fun _ _ h => h
  · rw [if_neg on, if_neg on, View.turn_of_held here]
    exact looks

end Pass

/-- What becomes of a child when it is applied. -/
def Child.outcome (c : Child) : Option Object → ApplyOutcome
  | none => .created
  | some cur => if (c.amend? cur).isSome then .updated else .unchanged

theorem Child.outcome_face (c : Child) (cur : Option Object) :
    c.outcome (cur.map Object.face) = c.outcome cur := by
  cases cur with
  | none => rfl
  | some o =>
    show (if (c.amend? o.face).isSome then _ else _) = _
    rw [Child.amend?_face, Option.isSome_map]
    rfl

/-- What a part looks like after a child was applied. -/
def View.apply (V : View) (c : Child) : View :=
  (V.turn c.key (c.applied (V.faces c.key))).note c

/-- What a part looks like after children were applied in order. -/
def View.applyAll (V : View) (cs : List Child) : View := cs.foldl View.apply V

/-- How many children each outcome befalls when they are applied in order. -/
def View.tally (V : View) : List Child → Tally → Tally
  | [], t => t
  | c :: cs, t => (V.apply c).tally cs (t.count (c.outcome (V.faces c.key)))

theorem View.applyAll_faces (V : View) (cs : List Child) :
    (V.applyAll cs).faces = V.faces.lay cs := by
  induction cs generalizing V with
  | nil => rfl
  | cons c cs ih => exact ih (V.apply c)

namespace Pass

variable {α : Type} {P : Part} {V : View} {w : World}

/-- A child is brought into being or into line. -/
theorem beside_settle (looks : w.Looks P V) {c : Child} (proper : c.Proper)
    (owned : P.owns c.key)
    (face : (Table.get? w.store.objects c.key).map Object.face = V.faces c.key) :
    (settle c (Table.get? w.store.objects c.key)).AmidBeside P w
      (fun outcome v => outcome = c.outcome (V.faces c.key) ∧
        v.Looks P (V.turn c.key (c.applied (V.faces c.key)))) fun _ _ => False := by
  rw [← face, Child.outcome_face, Child.applied_face]
  -- whatever others do, the child is as it was read
  have hkept : ∀ v : World, w.Beside P v →
      Table.get? v.store.objects c.key = Table.get? w.store.objects c.key :=
    fun v others => others.objects c.key owned
  cases hg : Table.get? w.store.objects c.key with
  | none =>
    rw [hg] at hkept
    exact beside_write looks (Request.stays_create owned _)
      (fun v others => ⟨_, _, Store.perform_create c.toObject (hkept v others)⟩)
      ApplyOutcome.created
  | some cur =>
    rw [hg] at hkept face
    unfold settle Child.applied Child.outcome
    cases hn : c.amend? cur with
    | none =>
      simp only [hn]
      have hsame : V.turn c.key cur.face = V := View.turn_of_held face.symm
      exact ⟨rfl, by rw [Option.getD_none, hsame]; exact looks⟩
    | some next =>
      simp only [hn]
      obtain ⟨hversion, hstatus⟩ := Child.amend?_same proper hn
      exact beside_write looks (Request.stays_update owned _)
        (fun v others => ⟨_, _, Store.perform_update (hkept v others) hversion hstatus⟩)
        ApplyOutcome.updated

theorem beside_apply (looks : w.Looks P V) {c : Child} (proper : c.Proper)
    (owned : P.owns c.key) :
    (apply P.root.key c).AmidBeside P w
      (fun outcome v => outcome = c.outcome (V.faces c.key) ∧ v.Looks P (V.apply c))
      fun _ _ => False := by
  refine beside_get looks owned ?_
  intro v hlooks hface
  refine (beside_settle hlooks proper owned hface).bind ?_
  rintro outcome u ⟨houtcome, hu⟩
  exact beside_request hu (Request.stays_record P c.key _) (fun _ => rfl) fun x hx =>
    ⟨houtcome, hx.note c⟩

/-- All children are applied, unless the controller is shutting down. -/
theorem beside_applyAll (looks : w.Looks P V) {cs : List Child} (proper : ∀ c ∈ cs, c.Proper)
    (owned : ∀ c ∈ cs, P.owns c.key) (t : Tally) :
    (applyAll P.root.key cs t).AmidBeside P w
      (fun tally v => (V.cancelled = true → cs = []) ∧ tally = V.tally cs t ∧
        v.Looks P (V.applyAll cs))
      fun e v => e = .cancelled ∧ (V.cancelled = true ∧ cs ≠ []) ∧ v.Looks P V := by
  induction cs generalizing w V t with
  | nil => exact ⟨fun _ => rfl, rfl, looks⟩
  | cons c cs ih =>
    refine beside_request looks trivial (fun _ => rfl) fun v hv => ?_
    show (if v.cancelled = true then .fail .cancelled else (apply P.root.key c).bind fun outcome =>
      applyAll P.root.key cs (t.count outcome) : Pass Tally).AmidBeside P v _ _
    rw [hv.cancelled]
    by_cases hoff : V.cancelled = true
    · rw [if_pos hoff]
      exact ⟨rfl, ⟨hoff, by simp⟩, hv⟩
    · rw [if_neg hoff]
      refine AmidBeside.bind ((beside_apply hv (proper c (by simp)) (owned c (by simp))).mono
        (fun _ _ h => h) fun _ _ h => absurd h id) ?_
      rintro outcome u ⟨rfl, hu⟩
      refine (ih hu (fun d hd => proper d (List.mem_cons_of_mem _ hd))
        (fun d hd => owned d (List.mem_cons_of_mem _ hd)) _).mono ?_ ?_
      -- the flag is in the view, and so is not up for any later child
      · exact fun tally x h => ⟨fun h' => absurd h' hoff, h.2.1, h.2.2⟩
      · exact fun e x h => absurd h.2.1.1 hoff

theorem beside_observe (looks : w.Looks P V) {keys : List Key} (owned : ∀ k ∈ keys, P.owns k) :
    (observe keys).AmidBeside P w
      (fun seen v => seen = keys.map (fun k => Observation.ofObject k (V.faces k)) ∧ v.Looks P V)
      fun _ _ => False := by
  induction keys generalizing w with
  | nil => exact ⟨rfl, looks⟩
  | cons key keys ih =>
    refine beside_get looks (owned key (by simp)) ?_
    intro v hlooks hface
    refine (ih hlooks fun k hk => owned k (List.mem_cons_of_mem _ hk)).bind ?_
    rintro seen u ⟨rfl, hu⟩
    refine ⟨?_, hu⟩
    rw [List.map_cons, ← hface, observation_face]

theorem beside_applyAndObserve (looks : w.Looks P V) {cs : List Child}
    (proper : ∀ c ∈ cs, c.Proper) (owned : ∀ c ∈ cs, P.owns c.key) :
    (applyAndObserve P.root cs).AmidBeside P w
      (fun seen v => (V.cancelled = true → cs = []) ∧ seen = (V.tally cs {},
          (Plan.tracked cs).map fun k => Observation.ofObject k (V.faces.lay cs k)) ∧
        v.Looks P (V.applyAll cs))
      fun e v => e = .cancelled ∧ (V.cancelled = true ∧ cs ≠ []) ∧ v.Looks P V := by
  refine (beside_applyAll looks proper owned {}).bind ?_
  rintro tally v ⟨hon, rfl, hv⟩
  have htracked : ∀ k ∈ Plan.tracked cs, P.owns k := by
    intro k hk
    obtain ⟨c, hc, rfl⟩ := List.mem_map.mp hk
    exact owned c (List.mem_filter.mp hc).1
  refine AmidBeside.bind ((beside_observe hv htracked).mono (fun _ _ h => h)
    fun _ _ h => absurd h id) ?_
  rintro seen u ⟨rfl, hu⟩
  rw [View.applyAll_faces]
  exact ⟨hon, rfl, hu⟩

/-- The root is reported on, unless its status cannot be read. -/
theorem beside_writeStatus {τ : Type} [DecidableEq τ] (looks : w.Looks P V) (r : Report τ)
    {o : Object} (here : V.faces P.root.key = some o) (now : String) :
    (writeStatus r.form P.root.key r.generation r.verdict now r.change).AmidBeside P w
      (fun outcome v => outcome ≠ .rootGone ∧ ∃ q, r.report? now o = some q ∧
        v.Looks P (V.turn P.root.key q))
      fun e v => e = .unreadableStatus ∧ r.report? now o = none ∧ v.Looks P V := by
  refine beside_get looks P.owns_root ?_
  intro v hlooks hface
  rw [here] at hface
  obtain ⟨p, hp, rfl⟩ := Option.map_eq_some_iff.mp hface
  rw [hp, Report.report?_face]
  unfold Report.report?
  cases hstored : r.form.stored? p.data with
  | none =>
    simp only [hstored]
    exact ⟨rfl, rfl, hlooks⟩
  | some status =>
    simp only [hstored, Option.map_some]
    show (if r.next now status = status then .done .unchanged
      else (call (.updateStatus P.root.key
        { p with data := p.data.setMember "status" (r.form.write (r.next now status)) })).bind
          fun _ => .done .written : Pass StatusWrite).AmidBeside P v _ _
    by_cases hnext : r.next now status = status
    · rw [if_pos hnext, if_pos hnext]
      refine ⟨nofun, p.face, rfl, ?_⟩
      rw [View.turn_of_held here]
      exact hlooks
    · rw [if_neg hnext, if_neg hnext]
      -- others leave the root alone between the read and the write
      have takes : ∀ u : World, v.Beside P u → ∃ reply op, u.store.perform (.updateStatus P.root.key
          { p with data := p.data.setMember "status" (r.form.write (r.next now status)) })
          = (.ok reply, (u.store.put P.root.key { p with
              data := p.data.setMember "status" (r.form.write (r.next now status)) }).log op
                P.root.key) := by
        intro u others
        have hu : Table.get? u.store.objects P.root.key = some p := by
          rw [others.objects _ P.owns_root, hp]
        exact ⟨_, _, Store.perform_updateStatus hu⟩
      refine (beside_write hlooks (Request.stays_updateStatus P.owns_root _) takes
        StatusWrite.written).mono ?_ fun _ _ h => absurd h id
      rintro outcome u ⟨rfl, hu⟩
      exact ⟨nofun, _, rfl, hu⟩

end Pass

/-- What a part looks like after the children that were written are told. -/
def View.conclude (V : View) (t : Tally) : View :=
  if t.changed then V.tell (Pass.appliedEvent t) else V

theorem View.conclude_faces (V : View) (t : Tally) : (V.conclude t).faces = V.faces := by
  unfold conclude
  split <;> rfl

theorem View.conclude_with (V : View) (t : Tally) (F : Faces) :
    { V.conclude t with faces := F } = View.conclude { V with faces := F } t := by
  unfold conclude
  split <;> rfl

namespace Pass

variable {P : Part} {V : View} {w : World}

/-- The end of a pass over a root that is there. -/
theorem beside_finish (looks : w.Looks P V) (settings : Settings) (t : Tally)
    {outcome : StatusWrite} (there : outcome ≠ .rootGone) :
    (finish settings P.root t outcome).AmidBeside P w
      (fun look v => look = .after settings.requeueSecs ∧ v.Looks P (V.conclude t))
      fun _ _ => False := by
  rw [finish_of_there settings P.root t there]
  unfold View.conclude
  by_cases hchanged : t.changed = true
  · rw [if_pos hchanged, if_pos hchanged]
    exact beside_request looks (Request.stays_announce P _) (fun _ => rfl) fun v hv =>
      ⟨rfl, hv.tell _⟩
  · rw [if_neg hchanged, if_neg hchanged]
    exact ⟨rfl, looks⟩

end Pass

/-! ## §4. The whole -/

namespace Plan

variable {τ : Type} [DecidableEq τ] {p : Plan τ} {V : View} {w : World}

/-- The part of a plan: its root and its children. -/
def part (p : Plan τ) (caps : Capabilities) : Part where
  root := p.root
  owns key := key = p.root.key ∨ ∃ c ∈ p.children caps, c.key = key
  owns_root := .inl rfl

/-- A pass that found its root held applies the children, unless the controller is shutting down,
    and reports on the root, if its status can be read. -/
theorem beside_goOn {caps : Capabilities} (looks : w.Looks (p.part caps) V)
    (served : w.capabilities = caps) (proper : ∀ c ∈ p.children caps, c.Proper) {o : Object}
    (here : (V.applyAll (p.children caps)).faces p.root.key = some o) (settings : Settings) :
    (p.goOn settings).AmidBeside (p.part caps) w
      (fun look v => look = .after settings.requeueSecs ∧
        (V.cancelled = true → p.children caps = []) ∧
        ∃ now q, (p.report caps (V.applyAll (p.children caps)).faces).report? now o = some q ∧
          v.Looks (p.part caps) (((V.applyAll (p.children caps)).turn p.root.key q).conclude
            (V.tally (p.children caps) {})))
      fun e v =>
        e = .cancelled ∧ (V.cancelled = true ∧ p.children caps ≠ []) ∧
          v.Looks (p.part caps) V ∨
        e = .unreadableStatus ∧ (V.cancelled = true → p.children caps = []) ∧
          (∃ now, (p.report caps (V.applyAll (p.children caps)).faces).report? now o = none) ∧
          v.Looks (p.part caps) (V.applyAll (p.children caps)) := by
  refine Pass.beside_request looks trivial (fun _ => rfl) fun v hv => ?_
  -- what is lacking is the same for all, and decides the capabilities
  have hcaps : v.capabilities = caps := (hv.capabilities looks rfl).trans served
  show ((Pass.applyAndObserve p.root (p.children v.capabilities)).bind _).AmidBeside _ v _ _
  rw [hcaps]
  have howned : ∀ c ∈ p.children caps, (p.part caps).owns c.key := fun c hc => .inr ⟨c, hc, rfl⟩
  refine Pass.AmidBeside.bind ((Pass.beside_applyAndObserve hv proper howned).mono
    (fun _ _ h => h) fun e u h => .inl h) ?_
  rintro seen u ⟨hon, rfl, hu⟩
  refine Pass.beside_request hu trivial (fun _ => rfl) fun x hx => ?_
  rw [← View.applyAll_faces]
  let r := p.report caps (V.applyAll (p.children caps)).faces
  refine Pass.AmidBeside.bind ((Pass.beside_writeStatus hx r here x.clock).mono
    (fun _ _ h => h) ?_) ?_
  · exact fun e y h => .inr ⟨h.1, hon, ⟨_, h.2.1⟩, h.2.2⟩
  · rintro outcome y ⟨hthere, q, hq, hy⟩
    refine (Pass.beside_finish hy settings _ hthere).mono ?_ fun _ _ h => absurd h id
    exact fun look z h => ⟨h.1, hon, _, q, hq, h.2⟩

end Plan

/-- The world looks so from a part, but for transition times in the status of its root. -/
def World.LooksBut (P : Part) (V : View) (w : World) : Prop :=
  ∃ F, Faces.SameBut P.root.key F V.faces ∧ w.Looks P { V with faces := F }

theorem World.Looks.but {P : Part} {V : View} {w : World} (h : w.Looks P V) : w.LooksBut P V :=
  ⟨V.faces, ⟨fun _ _ => rfl, rfl⟩, h⟩

theorem World.LooksBut.beside {P : Part} {V : View} {w v : World} (h : w.LooksBut P V)
    (others : w.Beside P v) : v.LooksBut P V := by
  obtain ⟨F, hF, looks⟩ := h
  exact ⟨F, hF, looks.beside others⟩

theorem World.LooksBut.tell {P : Part} {V : View} {w : World} (h : w.LooksBut P V)
    (event : Event) :
    World.LooksBut P (V.tell event) { w with events := w.events ++ [(P.root, event)] } := by
  obtain ⟨F, hF, looks⟩ := h
  exact ⟨F, hF, looks.tell event⟩

/-- Two reports of the same make no difference but in times. -/
theorem Report.sameBut_turn {τ : Type} [DecidableEq τ] {r : Report τ} (h : r.Lawful)
    {now t : String} {o p q : Object} (first : r.report? now o = some p)
    (second : r.report? t o = some q) (F : Faces) (root : Key) :
    Faces.SameBut root (F.turn root p) (F.turn root q) where
  other k hk := by rw [Faces.turn_of_ne _ (Ne.symm hk), Faces.turn_of_ne _ (Ne.symm hk)]
  root := by
    rw [Faces.turn_self, Faces.turn_self, ← first, ← second]
    exact Report.report?_timeless h now t o

/-- Whether a status can be read does not depend on the time. -/
theorem Report.report?_eq_none {τ : Type} [DecidableEq τ] {r : Report τ} {now t : String}
    {o : Object} (h : r.report? now o = none) : r.report? t o = none := by
  unfold Report.report? at h ⊢
  rw [Option.map_eq_none_iff] at h ⊢
  exact h

/-- What a part looks like after the fault of a pass is told of. -/
def View.warned {α : Type} (V : View) : Except PassError α → View
  | .ok _ | .error .cancelled => V
  | .error f => V.tell (Pass.failedEvent f)

namespace Pass

variable {α : Type} {P : Part} {V : View} {w : World} {e : Except PassError α}

/-- Beside others the pass ends with `e`, and then its part looks so but for times. -/
def Makes (P : Part) (p : Pass α) (w : World) (e : Except PassError α) (V : View) : Prop :=
  p.AmidBeside P w (fun a v => .ok a = e ∧ v.LooksBut P V) fun f v =>
    .error f = e ∧ v.LooksBut P V

theorem Makes.warned {p : Pass α} (h : p.Makes P w e V) :
    (Pass.warned P.root p).Makes P w e (V.warned e) := by
  refine Amid.warned (h.mono ?_ fun _ _ h => h) ?_ ?_
  · rintro a v ⟨rfl, hv⟩
    exact ⟨rfl, hv⟩
  · rintro v ⟨rfl, hv⟩
    exact ⟨rfl, hv⟩
  · rintro f v u hf ⟨rfl, hv⟩ others
    refine ⟨⟨Request.stays_announce P _, rfl⟩, rfl, ?_⟩
    have htold := (hv.beside others).tell (failedEvent f)
    cases f with
    | cancelled => exact absurd rfl hf
    | invalidSpec _ | store _ | unreadableStatus => exact htold

end Pass

namespace Plan

variable {τ : Type} [DecidableEq τ] {p : Plan τ} {V : View} {w : World}

/-- Whenever it is, a pass that found its root held has one end, and leaves one look of its part
    but for times. -/
theorem makes_goOn {caps : Capabilities} (lawful : ∀ seen, (p.reportOf seen).Lawful)
    (proper : ∀ c ∈ p.children caps, c.Proper) {o : Object}
    (here : (V.applyAll (p.children caps)).faces p.root.key = some o) (settings : Settings) :
    ∃ e U, ∀ v : World, v.Looks (p.part caps) V → v.capabilities = caps →
      (p.goOn settings).Makes (p.part caps) v e U := by
  let laid := V.applyAll (p.children caps)
  let r := p.report caps laid.faces
  by_cases hoff : V.cancelled = true ∧ p.children caps ≠ []
  · -- the controller shuts down before the first child
    refine ⟨.error .cancelled, V, fun v looks served => ?_⟩
    refine (beside_goOn looks served proper here settings).mono ?_ ?_
    · exact fun look u h => absurd (h.2.1 hoff.1) hoff.2
    · rintro e u (⟨rfl, -, hu⟩ | ⟨-, hon, -⟩)
      · exact ⟨rfl, hu.but⟩
      · exact absurd (hon hoff.1) hoff.2
  -- one report stands for those at all times
  cases hr : r.report? "" o with
  | none =>
    refine ⟨.error .unreadableStatus, laid, fun v looks served => ?_⟩
    refine (beside_goOn looks served proper here settings).mono ?_ ?_
    · rintro look u ⟨-, -, now, q, hq, -⟩
      rw [Report.report?_eq_none hr] at hq
      exact absurd hq nofun
    · rintro e u (⟨-, hon, -⟩ | ⟨rfl, -, -, hu⟩)
      · exact absurd hon hoff
      · exact ⟨rfl, hu.but⟩
  | some q =>
    let U := (laid.turn p.root.key q).conclude (V.tally (p.children caps) {})
    refine ⟨.ok (.after settings.requeueSecs), U, fun v looks served => ?_⟩
    refine (beside_goOn looks served proper here settings).mono ?_ ?_
    · rintro look u ⟨rfl, -, now, q', hq', hu⟩
      refine ⟨rfl, laid.faces.turn p.root.key q', ?_, ?_⟩
      · rw [View.conclude_faces]
        exact Report.sameBut_turn (lawful _) hq' hr laid.faces p.root.key
      · rw [View.conclude_with]
        exact hu
    · rintro e u (⟨-, hon, -⟩ | ⟨-, -, ⟨now, hnone⟩, -⟩)
      · exact absurd hon hoff
      · rw [Report.report?_eq_none hnone] at hr
        exact absurd hr nofun

/-- So has a whole pass over a root that is there. -/
theorem makes_steps {caps : Capabilities} (looks : w.Looks (p.part caps) V)
    (served : w.capabilities = caps) (lawful : ∀ seen, (p.reportOf seen).Lawful)
    (proper : ∀ c ∈ p.children caps, c.Proper) (apart : ∀ c ∈ p.children caps, c.key ≠ p.root.key)
    {o : Object} (here : V.faces p.root.key = some o) (settings : Settings) :
    ∃ e U, (p.steps settings).Makes (p.part caps) w e U := by
  let held := V.turn p.root.key (o.heldUnder settings p.linked)
  have hroot : (held.applyAll (p.children caps)).faces p.root.key
      = some (o.heldUnder settings p.linked) := by
    rw [View.applyAll_faces, Faces.lay_of_not_mem _ apart]
    exact Faces.turn_self _ _ _
  obtain ⟨e, U, hmakes⟩ := makes_goOn lawful proper hroot settings
  refine ⟨e, U, ?_⟩
  rw [steps_eq]
  refine Pass.AmidBeside.bind ((Pass.beside_holdIfLinked looks here settings p.linked).mono
    (fun _ _ h => h) fun _ _ h => absurd h id) ?_
  exact fun _ v hv => hmakes v hv ((hv.capabilities looks rfl).trans served)

/-- So has a pass that checks its spec first and tells of its fault. -/
theorem makes_checked {caps : Capabilities} (looks : w.Looks (p.part caps) V)
    (served : w.capabilities = caps) (lawful : ∀ seen, (p.reportOf seen).Lawful)
    (proper : ∀ c ∈ p.children caps, c.Proper) (apart : ∀ c ∈ p.children caps, c.key ≠ p.root.key)
    {o : Object} (here : V.faces p.root.key = some o) (settings : Settings)
    (check : Except SpecError Unit) :
    ∃ e U,
      (Pass.warned p.root ((Pass.ofCheck check).bind fun _ => p.steps settings)).Makes
        (p.part caps) w e U := by
  cases check with
  | error fault =>
    have hfails : (Pass.fail (.invalidSpec fault) : Pass NextLook).Makes (p.part caps) w
        (.error (.invalidSpec fault)) V := ⟨rfl, looks.but⟩
    exact ⟨_, _, hfails.warned⟩
  | ok _ =>
    obtain ⟨e, U, hmakes⟩ := makes_steps looks served lawful proper apart here settings
    exact ⟨e, _, hmakes.warned⟩

end Plan

/-! ## §5. Either kind of root -/

namespace RootResource

/-- The part of a root object: the root and its children. -/
def part (r : RootResource) (caps : Capabilities) : Part where
  root := r.root
  owns key := key = r.root.key ∨ ∃ c ∈ r.children caps, c.key = key
  owns_root := .inl rfl

/-- Beside others the pass over a root of either kind has one end, and leaves one look of the root
    and its children but for times. -/
theorem makes_pass (settings : Settings) {r : RootResource}
    (alive : r.metadata.deletionTimestamp = none) {w : World} (calm : w.Calm)
    (here : (Table.get? w.store.objects r.root.key).isSome = true) :
    ∃ e V, (r.pass settings).Makes (r.part w.capabilities) w e V := by
  obtain ⟨o, ho⟩ := Store.exists_face here
  have hproper : ∀ c ∈ r.children w.capabilities, c.Proper :=
    RootSpec.children_proper _ w.capabilities r.defaulted
  have looks := calm.looks (r.part w.capabilities)
  cases r with
  | install i =>
    have hpass := congrArg (Pass.warned (RootResource.install i).root)
      (Install.steps_eq settings (RootResource.install i).root alive)
    show ∃ e V, (Pass.warned _ (Install.steps settings _ i)).Makes _ w e V
    rw [hpass]
    exact Plan.makes_checked (p := Install.plan (RootResource.install i).root i) looks rfl
      (fun _ => ⟨Install.statusForm_lawful, fun _ _ => rfl⟩) hproper
      (fun c _ => c.key_ne_root _) ho settings _
  | simulator i =>
    have hpass := congrArg (Pass.warned (RootResource.simulator i).root)
      (Simulator.steps_eq settings (RootResource.simulator i).root alive)
    show ∃ e V, (Pass.warned _ (Simulator.steps settings _ i)).Makes _ w e V
    rw [hpass]
    exact Plan.makes_checked (p := Simulator.plan (RootResource.simulator i).root i) looks rfl
      (fun _ => ⟨Simulator.statusForm_lawful, fun _ _ => rfl⟩) hproper
      (fun c _ => c.key_ne_root _) ho settings _

end RootResource

end Converge
