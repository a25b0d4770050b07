/-
  Converge.Proofs.Pass.Shaken — passes whose store calls may be struck by faults.

  As long as no other actor writes, a struck call ends in one of three ways: with the answer of
  the store, with a fault before it reached the store, or with a fault after it.  What is proved
  of a pass here is proved for the end of the pass and for every fault that cuts it short; in a
  calm world no call is struck.

  Main statements:
    * `World.handle_call_alone` — the three ends of a call.
    * `Pass.Ends.bind`, `Pass.ends_call` — from the parts of a pass to the whole.
-/
import Converge.Proofs.Ledger
import Converge.Scenario.World

namespace Converge

/-! ## §1. Calm worlds -/

/-- Nothing disturbs the calls of a pass. -/
def World.Calm (w : World) : Prop := w.disturbances = []

/-- In a calm world calls are answered by the store alone. -/
theorem World.handle_call {w : World} (calm : w.Calm) (c : StoreCall) :
    World.handle (.call c) w
      = ((w.store.perform c).1, { w with store := (w.store.perform c).2 }) := by
  obtain ⟨store, ledger, settings, lacking, cancelled, disturbances, clock, events⟩ := w
  have hds : disturbances = [] := calm
  subst hds
  simp only [handle, World.call, Disturbance.perform, Disturbance.meet]
  cases (store.perform c).1 <;> rfl

/-- What the gate finds is decided by the kinds that are lacking. -/
theorem World.capabilities_of_lacking {w v : World} (same : v.lacking = w.lacking) :
    v.capabilities = w.capabilities := by
  unfold capabilities
  rw [same]

/-! ## §2. Strikes that write nothing -/

/-- The strike is no write by another actor. -/
def Strike.NoWriter : Strike → Prop
  | .conflict | .notFound | .api _ | .cancel => True
  | .touch _ | .remove _ => False

/-- Nobody but the controller writes. -/
def World.Alone (w : World) : Prop := ∀ d ∈ w.disturbances, d.strike.NoWriter

theorem World.Calm.alone {w : World} (calm : w.Calm) : w.Alone := by
  intro d hd
  rw [calm] at hd
  cases hd

theorem Disturbance.act_noWriter {s : Strike} (h : s.NoWriter) (key : Key) (w : Shaken) :
    (act s key w).2.store = w.store := by
  cases s with
  | conflict | notFound | api _ | cancel => rfl
  | touch _ | remove _ => exact absurd h nofun

/-- Such strikes leave the store, and remain such strikes. -/
theorem Disturbance.meet_noWriter {ds : List Disturbance} (alone : ∀ d ∈ ds, d.strike.NoWriter)
    (after : Bool) (c : StoreCall) (w : Shaken) :
    (meet after c ds w).2.2.store = w.store ∧
      ∀ d ∈ (meet after c ds w).2.1, d.strike.NoWriter := by
  induction ds generalizing w with
  | nil => exact ⟨rfl, fun d hd => absurd hd List.not_mem_nil⟩
  | cons d rest ih =>
    have hd : d.strike.NoWriter := alone d (by simp)
    have hrest := ih fun e he => alone e (List.mem_cons_of_mem _ he)
    -- the strike of the first is kept, whether or not the call is counted
    have hkeep : ∀ (e : Disturbance) (v : Shaken), e.strike = d.strike → v.store = w.store →
        (meet after c rest v).2.2.store = w.store ∧
          ∀ f ∈ e :: (meet after c rest v).2.1, f.strike.NoWriter := by
      intro e v he hv
      refine ⟨(hrest v).1.trans hv, ?_⟩
      intro f hf
      rcases List.mem_cons.mp hf with rfl | hf
      · rw [he]
        exact hd
      · exact (hrest v).2 f hf
    unfold meet
    split
    · -- the call counts for the first one
      dsimp only
      split
      · -- and is the one it strikes
        have hact := act_noWriter hd c.key w
        split
        · rename_i fault v hv
          rw [hv] at hact
          refine ⟨hact, ?_⟩
          intro f hf
          rcases List.mem_cons.mp hf with rfl | hf
          · exact hd
          · exact alone f (List.mem_cons_of_mem _ hf)
        · rename_i v hv
          rw [hv] at hact
          exact hkeep _ v rfl hact
      · exact hkeep _ w rfl rfl
    · exact hkeep d w rfl rfl

/-! ## §3. A call -/

/-- What requests of a pass leave as it is.  A calm world stays calm. -/
structure World.Follows (w w' : World) : Prop where
  alone : w'.Alone
  calm : w.Calm → w'.Calm ∧ w'.cancelled = w.cancelled
  lacking : w'.lacking = w.lacking
  clock : w'.clock = w.clock

theorem World.Follows.refl {w : World} (alone : w.Alone) : w.Follows w :=
  ⟨alone, fun calm => ⟨calm, rfl⟩, rfl, rfl⟩

theorem World.Follows.trans {w v u : World} (h : w.Follows v) (g : v.Follows u) : w.Follows u where
  alone := g.alone
  calm := by
    intro calm
    obtain ⟨hv, hcancelled⟩ := h.calm calm
    obtain ⟨hu, hsame⟩ := g.calm hv
    exact ⟨hu, hsame.trans hcancelled⟩
  lacking := g.lacking.trans h.lacking
  clock := g.clock.trans h.clock

/-- A world follows another one, with a ledger and with what the store holds under each key. -/
structure World.Leads (w : World) (l : Ledger) (F : Faces) (w' : World) : Prop
    extends w.Follows w' where
  ledger : w'.ledger = l
  face : w'.store.face = F

theorem World.Leads.trans {w v u : World} {l m : Ledger} {F G : Faces} (h : w.Leads l F v)
    (g : v.Leads m G u) : w.Leads m G u :=
  ⟨h.toFollows.trans g.toFollows, g.ledger, g.face⟩

theorem World.Leads.refl {w : World} (alone : w.Alone) : w.Leads w.ledger w.store.face w :=
  ⟨.refl alone, rfl, rfl⟩

/-- A call was struck: the store holds `F` or `G`, what was before it or what comes of it. -/
def World.Struck (w : World) (F G : Faces) (w' : World) : Prop :=
  ¬ w.Calm ∧ (w.Leads w.ledger F w' ∨ w.Leads w.ledger G w')

theorem World.Leads.struck {w v u : World} {E F G : Faces} (h : w.Leads w.ledger E v)
    (struck : v.Struck F G u) : w.Struck F G u := by
  obtain ⟨shaken, hu⟩ := struck
  rw [h.ledger] at hu
  refine ⟨fun calm => shaken (h.calm calm).1, ?_⟩
  rcases hu with hu | hu
  · exact .inl (h.trans hu)
  · exact .inr (h.trans hu)

theorem World.Leads.told {w w' : World} {l : Ledger} {F : Faces} (h : w.Leads l F w')
    (events : List (Root × Event)) : w.Leads l F { w' with events } :=
  ⟨⟨h.alone, h.calm, h.lacking, h.clock⟩, h.ledger, h.face⟩

/-- A call has the answer of the store, or it was struck before or after it reached the store. -/
theorem World.handle_call_alone {w : World} (alone : w.Alone) (c : StoreCall) :
    w.Follows (handle (.call c) w).2 ∧ (handle (.call c) w).2.ledger = w.ledger ∧
      ((handle (.call c) w).1 = (w.store.perform c).1 ∧
          (handle (.call c) w).2.store = (w.store.perform c).2 ∨
        ∃ e, (handle (.call c) w).1 = .error e ∧ ¬ w.Calm ∧
          ((handle (.call c) w).2.store = w.store ∨
            (handle (.call c) w).2.store = (w.store.perform c).2)) := by
  by_cases calm : w.Calm
  · rw [handle_call calm]
    exact ⟨⟨alone, fun _ => ⟨calm, rfl⟩, rfl, rfl⟩, rfl, .inl ⟨rfl, rfl⟩⟩
  · -- first the strikes before the call, then the store, then the strikes after the call
    obtain ⟨hbefore, hkept⟩ :=
      Disturbance.meet_noWriter alone false c ⟨w.store, w.cancelled⟩
    simp only [handle, World.call, Disturbance.perform]
    generalize Disturbance.meet false c w.disturbances ⟨w.store, w.cancelled⟩ = met at hbefore hkept
    obtain ⟨fault, ds, shaken⟩ := met
    cases fault with
    | some e =>
      exact ⟨⟨hkept, fun h => absurd h calm, rfl, rfl⟩, trivial,
        .inr ⟨e, rfl, calm, .inl hbefore⟩⟩
    | none =>
      have hstore : shaken.store = w.store := hbefore
      simp only [hstore]
      cases hreply : (w.store.perform c).1 with
      | error e =>
        exact ⟨⟨hkept, fun h => absurd h calm, rfl, rfl⟩, trivial, .inl ⟨rfl, rfl⟩⟩
      | ok value =>
        obtain ⟨hafter, hstill⟩ := Disturbance.meet_noWriter hkept true c
          { shaken with store := (w.store.perform c).2 }
        dsimp only
        generalize Disturbance.meet true c ds { shaken with store := (w.store.perform c).2 }
          = met at hafter hstill
        obtain ⟨fault, ds', shaken'⟩ := met
        cases fault with
        | some e =>
          exact ⟨⟨hstill, fun h => absurd h calm, rfl, rfl⟩, trivial,
            .inr ⟨e, rfl, calm, .inr hafter⟩⟩
        | none =>
          exact ⟨⟨hstill, fun h => absurd h calm, rfl, rfl⟩, trivial, .inl ⟨rfl, hafter⟩⟩

/-- A call that is answered was answered by the store. -/
theorem World.Alone.answered {w u : World} (alone : w.Alone) {c : StoreCall} {a : c.Reply}
    (h : World.handle (.call c) w = (.ok a, u)) : w.store.perform c = (.ok a, u.store) := by
  obtain ⟨_, _, hend⟩ := World.handle_call_alone alone c
  rw [h] at hend
  rcases hend with ⟨hreply, hstore⟩ | ⟨e, hreply, _⟩
  · exact (Prod.ext hreply hstore).symm
  · exact absurd hreply nofun

/-- No request of a pass brings in another writer. -/
theorem World.Alone.follows {w : World} (alone : w.Alone) (r : Request) :
    w.Follows (handle r w).2 := by
  cases r with
  | call c => exact (handle_call_alone alone c).1
  | capabilities | isCancelled | clock | record | forget | linkedChildren | announce =>
    exact ⟨alone, fun calm => ⟨calm, rfl⟩, rfl, rfl⟩

/-- A request leaves the store alone, or it is a call and leaves what the store makes of it. -/
theorem World.Alone.store_handle {w : World} (alone : w.Alone) (r : Request) :
    (handle r w).2.store = w.store ∨
      ∃ c, r = .call c ∧ (handle r w).2.store = (w.store.perform c).2 := by
  cases r with
  | call c =>
    obtain ⟨_, _, hend⟩ := handle_call_alone alone c
    rcases hend with ⟨_, hstore⟩ | ⟨_, _, _, hstore | hstore⟩
    · exact .inr ⟨c, rfl, hstore⟩
    · exact .inl hstore
    · exact .inr ⟨c, rfl, hstore⟩
  | capabilities | isCancelled | clock | record | forget | linkedChildren | announce =>
    exact .inl rfl

theorem World.Follows.capabilities {w w' : World} (h : w.Follows w') :
    w'.capabilities = w.capabilities :=
  World.capabilities_of_lacking h.lacking

/-! ## §4. How passes end -/

namespace Pass

variable {α β : Type} {w : World} {done : α → World → Prop} {fault : PassError → World → Prop}

/-- How a pass from `w` ends: `done` holds of its result, or `fault` of what cut it short. -/
def Ends (p : Pass α) (w : World) (done : α → World → Prop)
    (fault : PassError → World → Prop) : Prop :=
  match p.run World.handle w with
  | (.ok a, w') => done a w'
  | (.error e, w') => fault e w'

theorem Ends.bind {p : Pass α} {f : α → Pass β} {after : β → World → Prop}
    (h : p.Ends w (fun a w' => (f a).Ends w' after fault) fault) :
    (p.bind f).Ends w after fault := by
  unfold Ends at h ⊢
  rw [run_bind]
  generalize p.run World.handle w = ended at h
  obtain ⟨r, w'⟩ := ended
  cases r with
  | ok a => exact h
  | error e => exact h

theorem Ends.mono {p : Pass α} {done' : α → World → Prop} {fault' : PassError → World → Prop}
    (h : p.Ends w done fault) (hdone : ∀ a w', done a w' → done' a w')
    (hfault : ∀ e w', fault e w' → fault' e w') : p.Ends w done' fault' := by
  unfold Ends at h ⊢
  generalize p.run World.handle w = ended at h
  obtain ⟨r, w'⟩ := ended
  cases r with
  | ok a => exact hdone a w' h
  | error e => exact hfault e w' h

theorem Ends.of_ok {p : Pass α} (h : p.Ends w done fault) {a : α} {w' : World}
    (ran : p.run World.handle w = (.ok a, w')) : done a w' := by
  unfold Ends at h
  rw [ran] at h
  exact h

theorem Ends.of_error {p : Pass α} (h : p.Ends w done fault) {e : PassError} {w' : World}
    (ran : p.run World.handle w = (.error e, w')) : fault e w' := by
  unfold Ends at h
  rw [ran] at h
  exact h

/-- A pass that cannot be cut short gives a result. -/
theorem Ends.exists_run {p : Pass α} (h : p.Ends w done fun _ _ => False) :
    ∃ a w', p.run World.handle w = (.ok a, w') ∧ done a w' := by
  unfold Ends at h
  generalize p.run World.handle w = ended at h
  obtain ⟨r, w'⟩ := ended
  cases r with
  | ok a => exact ⟨a, w', rfl, h⟩
  | error e => exact absurd h id

/-- No pass brings in another writer. -/
theorem alone_run (p : Pass α) (alone : w.Alone) : (p.run World.handle w).2.Alone := by
  induction p generalizing w with
  | done a => exact alone
  | fail e => exact alone
  | ask r next ih => exact ih _ (alone.follows r).alone

/-- A pass goes on with the reply to its call. -/
theorem Ends.of_reply {c : StoreCall} {next : c.Reply → Pass α}
    (h : ((ofReply (World.handle (.call c) w).1).bind next).Ends (World.handle (.call c) w).2
      done fault) : ((call c).bind next).Ends w done fault := h

/-- In a calm world a pass goes on with the answer of the store. -/
theorem run_call (calm : w.Calm) {c : StoreCall} {reply : c.Reply} {s : Store}
    (answer : w.store.perform c = (.ok reply, s)) (next : c.Reply → Pass α) :
    ((call c).bind next).run World.handle w
      = (next reply).run World.handle { w with store := s } := by
  show ((ofReply (World.handle (.call c) w).1).bind next).run World.handle
    (World.handle (.call c) w).2 = _
  rw [World.handle_call calm, answer]
  rfl

/-- A call that the store would answer. -/
theorem ends_call {c : StoreCall} {reply : c.Reply} {s : Store} (alone : w.Alone)
    (answer : w.store.perform c = (.ok reply, s)) {next : c.Reply → Pass α}
    (answered : ∀ w', w.Leads w.ledger s.face w' → w'.store = s → (next reply).Ends w' done fault)
    (struck : ∀ w' e F, ¬ w.Calm → (F = w.store.face ∨ F = s.face) → w.Leads w.ledger F w' →
      fault (.store e) w') :
    ((call c).bind next).Ends w done fault := by
  obtain ⟨hfollows, hledger, hend⟩ := World.handle_call_alone alone c
  rw [answer] at hend
  refine Ends.of_reply ?_
  rcases hend with ⟨hreply, hstore⟩ | ⟨e, hreply, hshaken, hstore⟩
  · rw [hreply]
    exact answered _ ⟨hfollows, hledger, congrArg Store.face hstore⟩ hstore
  · rw [hreply]
    refine struck _ e _ hshaken ?_ ⟨hfollows, hledger, rfl⟩
    rcases hstore with hstore | hstore
    · exact .inl (congrArg Store.face hstore)
    · exact .inr (congrArg Store.face hstore)

/-- Fetching an object. -/
theorem ends_get (alone : w.Alone) (key : Key) {next : Option Object → Pass α}
    (answered : ∀ w', w.Leads w.ledger w.store.face w' → w'.store.objects = w.store.objects →
      (next (Table.get? w.store.objects key)).Ends w' done fault)
    (struck : ∀ w' e, ¬ w.Calm → w.Leads w.ledger w.store.face w' → fault (.store e) w') :
    ((call (.get key)).bind next).Ends w done fault := by
  have answer : w.store.perform (.get key)
      = (.ok (Table.get? w.store.objects key), w.store.countRead) := rfl
  refine ends_call alone answer ?_ ?_
  · intro w' leads store
    refine answered w' leads ?_
    rw [store]
    rfl
  · intro w' e F shaken hF leads
    have hsame : F = w.store.face := by
      rcases hF with h | h
      · exact h
      · exact h
    subst hsame
    exact struck w' e shaken leads

/-- An attempt gives the end of the pass as its result. -/
theorem run_attempt (p : Pass α) (w : World) : p.attempt.run World.handle w
    = (.ok (p.run World.handle w).1, (p.run World.handle w).2) := by
  induction p generalizing w with
  | done a => rfl
  | fail e => rfl
  | ask r next ih => exact ih _ _

/-- A pass that tells of faults ends like the pass, if what is told does not matter. -/
theorem Ends.warned {p : Pass α} (root : Root) (h : p.Ends w done fault)
    (told : ∀ e w' event, fault e w' →
      fault e { w' with events := w'.events ++ [(root, event)] }) :
    (Pass.warned root p).Ends w done fault := by
  unfold Ends at h ⊢
  show match (p.attempt.bind _).run World.handle w with
    | (.ok a, w') => done a w'
    | (.error e, w') => fault e w'
  rw [run_bind, run_attempt]
  generalize p.run World.handle w = ended at h
  obtain ⟨r, w'⟩ := ended
  cases r with
  | ok a => exact h
  | error e =>
    cases e with
    | cancelled => exact h
    | invalidSpec _ | store _ | unreadableStatus => exact told _ w' _ h

end Pass

end Converge
