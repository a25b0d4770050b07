/-
  Converge.Proofs.Pass.Tags — what a pass that is done leaves of names and labels.

  Cleanup is about little of an object: its name and its labels.  In a calm world a pass over a
  plan leaves of these what can be said at once, as a function of what was there before; only
  passes that are done are looked at, so that nothing is asked of the spec or of what is stored.

  Main statements:
    * `Plan.yields_steps` — what a pass that is done leaves.
-/
import Converge.Proofs.Children.Homes
import Converge.Proofs.Pass.Footprint
import Converge.Proofs.Pass.Record
import Mathlib.Logic.Function.Basic

namespace Converge

/-! ## §1. Tags -/

/-- What cleanup looks at in an object. -/
structure Tags where
  name : Option String
  labels : Table String String
deriving DecidableEq

/-- The tags of an object. -/
def Object.tags (o : Object) : Tags where
  name := o.metadata.name
  labels := o.metadata.labels.getD []

/-- The tags of what is stored under each key. -/
abbrev Tagging := Key → Option Tags

namespace Store

variable {s t : Store} {key : Key} {p : Object}

/-- The tags of what the store holds. -/
def tags (s : Store) : Tagging := fun key => (Table.get? s.objects key).map Object.tags

theorem tags_of_objects (same : t.objects = s.objects) : t.tags = s.tags := by
  unfold tags
  rw [same]

theorem tags_insert (written : t.objects = Table.insert s.objects key p) :
    t.tags = Function.update s.tags key (some p.tags) := by
  funext k
  unfold tags
  rw [written, Table.get?_insert]
  by_cases hk : k = key
  · subst hk
    rw [if_pos rfl, Function.update_self]
    rfl
  · rw [if_neg (Ne.symm hk), Function.update_of_ne hk]

theorem tags_of_get? {o : Object} (h : Table.get? s.objects key = some o) :
    s.tags key = some o.tags := congrArg (Option.map Object.tags) h

theorem tags_of_get?_none (h : Table.get? s.objects key = none) : s.tags key = none :=
  congrArg (Option.map Object.tags) h

end Store

/-! ## §2. Passes that are done -/

/-- A world comes from a calm one, with a ledger and with tags. -/
structure World.Comes (w : World) (l : Ledger) (T : Tagging) (v : World) : Prop where
  calm : v.Calm
  lacking : v.lacking = w.lacking
  ledger : v.ledger = l
  tags : v.store.tags = T

theorem World.Comes.refl {w : World} (calm : w.Calm) : w.Comes w.ledger w.store.tags w :=
  ⟨calm, rfl, rfl, rfl⟩

theorem World.Comes.trans {w v u : World} {l m : Ledger} {T U : Tagging} (h : w.Comes l T v)
    (g : v.Comes m U u) : w.Comes m U u :=
  ⟨g.calm, g.lacking.trans h.lacking, g.ledger, g.tags⟩

theorem World.Comes.of_objects {w : World} (calm : w.Calm) {s : Store}
    (same : s.objects = w.store.objects) : w.Comes w.ledger w.store.tags { w with store := s } :=
  ⟨calm, rfl, rfl, Store.tags_of_objects same⟩

namespace Pass

variable {α β : Type} {w : World} {done : α → World → Prop}

/-- If the pass is done, then `done` holds of its result. -/
abbrev Yields (p : Pass α) (w : World) (done : α → World → Prop) : Prop :=
  p.Ends w done fun _ _ => True

theorem Yields.bind {p : Pass α} {f : α → Pass β} {after : β → World → Prop}
    (h : p.Yields w done) (next : ∀ a v, done a v → (f a).Yields v after) :
    (p.bind f).Yields w after :=
  Ends.bind (Ends.mono h next fun _ _ _ => trivial)

/-- In a calm world a call is answered by the store. -/
theorem yields_call {c : StoreCall} {next : c.Reply → Pass α} (calm : w.Calm)
    (answered : ∀ a s, w.store.perform c = (.ok a, s) →
      (next a).Yields { w with store := s } done) :
    ((call c).bind next).Yields w done := by
  have hrun : ((call c).bind next).run World.handle w
      = ((ofReply (w.store.perform c).1).bind next).run World.handle
          { w with store := (w.store.perform c).2 } := by
    show ((ofReply (World.handle (.call c) w).1).bind next).run World.handle
      (World.handle (.call c) w).2 = _
    rw [World.handle_call calm]
  unfold Yields Ends
  rw [hrun]
  generalize hreply : w.store.perform c = reply at answered
  obtain ⟨reply, s⟩ := reply
  cases reply with
  | ok a => exact answered a s rfl
  | error e => trivial

/-- A read leaves everything as it is. -/
theorem yields_get {key : Key} {next : Option Object → Pass α} (calm : w.Calm)
    (answered : ∀ v, w.Comes w.ledger w.store.tags v → v.store.objects = w.store.objects →
      (next (Table.get? w.store.objects key)).Yields v done) :
    ((call (.get key)).bind next).Yields w done := by
  refine yields_call calm ?_
  intro a s hreply
  obtain ⟨ha, hs⟩ := Prod.mk.inj hreply
  rw [← Except.ok.inj ha, ← hs]
  exact answered _ (.of_objects calm rfl) rfl

end Pass

/-! ## §3. Holding the root -/

theorem Finalizer.held_labels (m : Metadata) (linked : Roster String) :
    (held m linked).labels = m.labels := by
  have hfinalized : (finalized m).labels = m.labels := by
    unfold finalized
    split <;> rfl
  rw [held_eq]
  split <;> exact hfinalized

/-- Holding an object changes no tags. -/
theorem Object.tags_held (o : Object) (linked : Roster String) :
    tags { o with metadata := Finalizer.held o.metadata linked } = o.tags := by
  unfold tags
  simp only [Finalizer.held_name, Finalizer.held_labels]

namespace Store

/-- Tags that are as they were make no difference. -/
theorem tags_insert_same {s t : Store} {key : Key} {o p : Object}
    (stored : Table.get? s.objects key = some o)
    (written : t.objects = Table.insert s.objects key p) (same : p.tags = o.tags) :
    t.tags = s.tags := by
  rw [tags_insert written, same]
  exact Function.update_eq_self_iff.mpr (tags_of_get? stored).symm

end Store

namespace Pass

variable {w : World} {root : Root}

theorem yields_holdRoot (calm : w.Calm) (linked : Roster String) :
    (holdRoot root linked).Yields w fun _ v => w.Comes w.ledger w.store.tags v := by
  refine yields_get calm ?_
  intro v comes objects
  cases hstored : Table.get? w.store.objects root.key with
  | none => exact comes
  | some o =>
    cases hold : Finalizer.hold? o.metadata linked with
    | none =>
      simp only [hold]
      exact comes
    | some m =>
      simp only [hold]
      obtain rfl := Finalizer.held_of_some hold
      refine yields_call comes.calm ?_
      intro a s hreply
      obtain ⟨_, _, _, written⟩ := Store.perform_update_ok hreply
      rw [← objects] at hstored
      refine comes.trans ⟨comes.calm, rfl, comes.ledger, ?_⟩
      rw [Store.tags_insert_same hstored written (o.tags_held linked), comes.tags]

theorem yields_holdIfLinked (calm : w.Calm) (settings : Settings) (linked : Roster String) :
    (holdIfLinked settings root linked).Yields w
      fun _ v => w.Comes w.ledger w.store.tags v := by
  unfold holdIfLinked
  split
  · exact (yields_holdRoot calm linked).bind fun _ _ comes => comes
  · exact .refl calm

end Pass

/-! ## §4. Children -/

/-- The tags of a child once it is applied. -/
def Child.tagged (c : Child) : Option Tags → Tags
  | none => ⟨some c.name, c.managedLabels⟩
  | some t => { t with labels := (Amend.labels c.managedLabels t.labels).1 }

/-- One child is applied. -/
def Tagging.put (T : Tagging) (c : Child) : Tagging :=
  Function.update T c.key (some (c.tagged (T c.key)))

/-- Children are applied in order. -/
def Tagging.lay (T : Tagging) (cs : List Child) : Tagging := cs.foldl Tagging.put T

theorem Tagging.put_of_ne (T : Tagging) {c : Child} {k : Key} (h : c.key ≠ k) : T.put c k = T k :=
  Function.update_of_ne (Ne.symm h) _ _

theorem Tagging.put_self (T : Tagging) (c : Child) : T.put c c.key = some (c.tagged (T c.key)) :=
  Function.update_self _ _ _

theorem Tagging.lay_of_not_mem (T : Tagging) {cs : List Child} {k : Key}
    (elsewhere : ∀ c ∈ cs, c.key ≠ k) : T.lay cs k = T k := by
  induction cs generalizing T with
  | nil => rfl
  | cons c cs ih =>
    show (T.put c).lay cs k = T k
    rw [ih _ fun d hd => elsewhere d (List.mem_cons_of_mem _ hd),
      put_of_ne T (elsewhere c (by simp))]

namespace Pass

variable {w : World} {root : Key}

theorem yields_settle (calm : w.Calm) (c : Child) :
    (settle c (Table.get? w.store.objects c.key)).Yields w
      fun _ v => w.Comes w.ledger (w.store.tags.put c) v := by
  unfold Tagging.put
  cases hstored : Table.get? w.store.objects c.key with
  | none =>
    rw [Store.tags_of_get?_none hstored]
    refine yields_call calm ?_
    intro a s hreply
    exact ⟨calm, rfl, rfl, Store.tags_insert (Store.perform_create_ok hreply).2⟩
  | some cur =>
    rw [Store.tags_of_get? hstored]
    unfold settle
    cases hnext : c.amend? cur with
    | none =>
      -- the labels are there already
      simp only [hnext]
      obtain ⟨hlabels, _⟩ := Child.amend?_eq_none.mp hnext
      have hsame : c.tagged (some cur.tags) = cur.tags := by
        have hcarried := Amend.labels_snd_eq_false_iff.mp hlabels
        unfold Child.tagged
        dsimp only [Object.tags]
        rw [Amend.labels_of_carried hcarried]
      rw [hsame, Function.update_eq_self_iff.mpr (Store.tags_of_get? hstored).symm]
      exact .refl calm
    | some next =>
      simp only [hnext]
      rw [Child.amend?_some hnext]
      refine yields_call calm ?_
      intro a s hreply
      obtain ⟨stored, _, _, written⟩ := Store.perform_update_ok hreply
      exact ⟨calm, rfl, rfl, Store.tags_insert written⟩

theorem yields_apply (calm : w.Calm) (c : Child) :
    (apply root c).Yields w
      fun _ v => w.Comes (w.ledger.noted root c) (w.store.tags.put c) v := by
  refine yields_get calm ?_
  intro v comes objects
  have hsettle := yields_settle comes.calm c
  rw [objects, comes.ledger, comes.tags] at hsettle
  refine hsettle.bind ?_
  intro outcome u hu
  have hwu := comes.trans hu
  exact ⟨hwu.calm, hwu.lacking, congrArg (·.noted root c) hwu.ledger, hwu.tags⟩

theorem yields_applyAll (calm : w.Calm) (cs : List Child) (tally : Tally) :
    (applyAll root cs tally).Yields w
      fun _ v => w.Comes (w.ledger.notedAll root cs) (w.store.tags.lay cs) v := by
  -- by induction on the children; each one starts where the one before it has led
  induction cs generalizing w tally with
  | nil => exact .refl calm
  | cons c cs ih =>
    show (if w.cancelled = true then .fail .cancelled else (apply root c).bind fun outcome =>
      applyAll root cs (tally.count outcome) : Pass Tally).Yields _ _
    split
    · trivial
    · refine (yields_apply calm c).bind ?_
      intro outcome v comes
      have hrest := ih comes.calm (tally.count outcome)
      rw [comes.ledger, comes.tags] at hrest
      exact Ends.mono hrest (fun _ _ hu => comes.trans hu) fun _ _ h => h

theorem yields_observe (calm : w.Calm) (keys : List Key) :
    (observe keys).Yields w fun _ v => w.Comes w.ledger w.store.tags v := by
  induction keys generalizing w with
  | nil => exact .refl calm
  | cons key keys ih =>
    refine yields_get calm ?_
    intro v comes _
    have hrest := ih comes.calm
    rw [comes.ledger, comes.tags] at hrest
    exact hrest.bind fun _ _ hu => comes.trans hu

theorem yields_applyAndObserve (calm : w.Calm) (root : Root) (cs : List Child) :
    (applyAndObserve root cs).Yields w
      fun _ v => w.Comes (w.ledger.notedAll root.key cs) (w.store.tags.lay cs) v := by
  refine (yields_applyAll calm cs {}).bind ?_
  intro tally v comes
  have hobserve := yields_observe comes.calm ((cs.filter (·.tracked)).map Child.key)
  rw [comes.ledger, comes.tags] at hobserve
  exact hobserve.bind fun _ _ hu => comes.trans hu

/-! ## §5. Reporting -/

/-- The report changes no tags, and tells whether the root is there. -/
theorem yields_writeStatus {τ : Type} [DecidableEq τ] (calm : w.Calm) (form : StatusForm τ)
    (generation : Option Int64) (verdict : Verdict) (now : String) (change : τ → τ) :
    (writeStatus form root generation verdict now change).Yields w fun outcome v =>
      (outcome = .rootGone ↔ w.store.tags root = none) ∧ w.Comes w.ledger w.store.tags v := by
  refine yields_get calm ?_
  intro v comes objects
  cases hstored : Table.get? w.store.objects root with
  | none => exact ⟨⟨fun _ => Store.tags_of_get?_none hstored, fun _ => rfl⟩, comes⟩
  | some o =>
    have hthere : ∀ outcome : StatusWrite, outcome ≠ .rootGone →
        (outcome = .rootGone ↔ w.store.tags root = none) := by
      intro outcome h
      rw [Store.tags_of_get? hstored]
      exact ⟨fun heq => absurd heq h, nofun⟩
    cases hstatus : form.stored? o.data with
    | none =>
      simp only [hstatus]
      trivial
    | some status =>
      simp only [hstatus]
      split
      · exact ⟨hthere _ nofun, comes⟩
      · refine yields_call comes.calm ?_
        intro a s hreply
        obtain ⟨stored, hv, _, written⟩ := Store.perform_updateStatus_ok hreply
        refine ⟨hthere _ nofun, comes.trans ⟨comes.calm, rfl, comes.ledger, ?_⟩⟩
        -- what is written has the metadata of what is stored
        rw [Store.tags_insert_same hv written rfl, comes.tags]

/-- A root that is gone is forgotten. -/
theorem yields_finish (calm : w.Calm) (settings : Settings) (root : Root) (tally : Tally)
    (outcome : StatusWrite) :
    (finish settings root tally outcome).Yields w fun _ v =>
      w.Comes (if outcome = .rootGone then w.ledger.forget root.key else w.ledger)
        w.store.tags v := by
  by_cases gone : outcome = .rootGone
  · rw [gone]
    exact ⟨calm, rfl, rfl, rfl⟩
  · rw [finish_of_there settings root tally gone, if_neg gone]
    split
    · exact ⟨calm, rfl, rfl, rfl⟩
    · exact .refl calm

end Pass

/-! ## §6. The whole -/

namespace Plan

variable {τ : Type} [DecidableEq τ]

/-- The ledger that a pass leaves: the children of a root that is there are noted. -/
def noted (p : Plan τ) (caps : Capabilities) (T : Tagging) (l : Ledger) : Ledger :=
  if T p.root.key = none then (l.notedAll p.root.key (p.children caps)).forget p.root.key
  else l.notedAll p.root.key (p.children caps)

variable {w : World}

/-- What a pass over a plan leaves, if it is done. -/
theorem yields_steps (calm : w.Calm) (p : Plan τ) (settings : Settings)
    (apart : ∀ c ∈ p.children w.capabilities, c.key ≠ p.root.key) :
    (p.steps settings).Yields w fun _ v =>
      w.Comes (p.noted w.capabilities w.store.tags w.ledger)
        (w.store.tags.lay (p.children w.capabilities)) v := by
  refine (Pass.yields_holdIfLinked calm settings p.linked).bind ?_
  intro _ v hv
  have hcaps : v.capabilities = w.capabilities := World.capabilities_of_lacking hv.lacking
  show ((Pass.applyAndObserve p.root (p.children v.capabilities)).bind fun seen =>
    (Pass.request .clock).bind fun now =>
      (Pass.writeStatus p.form p.root.key p.generation (Verdict.ofObservations p.text seen.2) now
        (p.change seen.2)).bind fun outcome =>
          Pass.finish settings p.root seen.1 outcome).Yields v _
  rw [hcaps]
  refine (Pass.yields_applyAndObserve hv.calm p.root (p.children w.capabilities)).bind ?_
  intro seen u hu
  rw [hv.ledger, hv.tags] at hu
  have hwu := hv.trans hu
  refine (Pass.yields_writeStatus hwu.calm p.form p.generation _ u.clock (p.change seen.2)).bind ?_
  rintro outcome x ⟨hgone, hx⟩
  rw [hwu.ledger, hwu.tags] at hx
  have hwx := hwu.trans hx
  have hfinish := Pass.yields_finish hwx.calm settings p.root seen.1 outcome
  rw [hwx.ledger, hwx.tags] at hfinish
  refine Pass.Ends.mono hfinish (fun look y hy => ?_) fun _ _ h => h
  have hwy := hwx.trans hy
  refine ⟨hwy.calm, hwy.lacking, hwy.ledger.trans ?_, hwy.tags⟩
  -- the root is there at the end if it was there at the start
  rw [hwu.tags, Tagging.lay_of_not_mem _ apart] at hgone
  unfold noted
  simp only [hgone]

end Plan

end Converge
