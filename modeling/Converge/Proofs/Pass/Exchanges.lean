/-
  Converge.Proofs.Pass.Exchanges — what a pass asked for, and what it was asked of.

  A traced world keeps every request of a pass together with the world it was made in.  Before
  each request others may do to the store whatever can be done to it, and to the rest of the world
  what they like; no fault is injected.

  Main statements:
    * `Pass.amid_traced_call` — a store call among foreign writes.
    * `LastRead.of_get`, `LastRead.later` — what is known of the latest read of a key.
    * `Pass.Amid.obeys` — what holds whenever a pass asks holds of every exchange of its runs.
    * `Pass.OnlyIf.exchanged` — what a pass may ask for is all that its runs have asked for.
    * `Pass.Traces.exists_run` — what is proved of a pass that nobody disturbs holds of its run.
-/
import Converge.Proofs.Pass.Amid
import Converge.Proofs.Pass.Shaken
import Converge.Proofs.Store.Versions

namespace Converge

/-! ## §1. Exchanges -/

/-- A request of a pass, and the world it was made in. -/
structure Exchange where
  request : Request
  world : World
deriving Inhabited

namespace Exchange

/-- The store just before the request. -/
def store (x : Exchange) : Store := x.world.store

/-- The store just after the request. -/
def storeAfter (x : Exchange) : Store := (World.handle x.request x.world).2.store

/-- The answer to the request. -/
def reply (x : Exchange) : x.request.Reply := (World.handle x.request x.world).1

/-- The fault that the request was answered with. -/
def fault? : Exchange → Option StoreError
  | ⟨.call c, w⟩ => match (World.handle (.call c) w).1 with
    | .error e => some e
    | .ok _ => none
  | _ => none

/-- The request told an event. -/
def Announces (x : Exchange) : Prop := ∃ root event, x.request = .announce root event

theorem storeAfter_call {w : World} (calm : w.Calm) (c : StoreCall) :
    storeAfter ⟨.call c, w⟩ = (w.store.perform c).2 := by
  unfold storeAfter
  rw [World.handle_call calm]

theorem fault?_call {w : World} (calm : w.Calm) (c : StoreCall) :
    fault? ⟨.call c, w⟩ = match (w.store.perform c).1 with
      | .error e => some e
      | .ok _ => none := by
  show (match (World.handle (.call c) w).1 with | .error e => some e | .ok _ => none) = _
  rw [World.handle_call calm]
  cases (w.store.perform c).1 <;> rfl

end Exchange

/-! ## §2. Traced worlds -/

/-- A world, and all that a pass has exchanged with it so far; the latest exchange comes last. -/
structure Traced where
  world : World
  log : List Exchange := []

/-- A pass in a calm world, on a store that others may write to before each request. -/
def Scene.traced : Scene Traced where
  handle r s :=
    ((World.handle r s.world).1, ⟨(World.handle r s.world).2, s.log ++ [⟨r, s.world⟩]⟩)
  others s t :=
    t.log = s.log ∧ (s.world.Calm → t.world.Calm) ∧ s.world.store.Writes t.world.store
  still _ := ⟨rfl, id, .refl _⟩
  further h g := ⟨g.1.trans h.1, g.2.1 ∘ h.2.1, h.2.2.trans g.2.2⟩

namespace Pass

variable {α : Type} {asks : Request → Traced → Prop} {s : Traced} {done : α → Traced → Prop}
  {fault : PassError → Traced → Prop}

/-- A store call among foreign writes is answered by the store as it is then. -/
theorem amid_traced_call {c : StoreCall} {next : c.Reply → Pass α} (calm : s.world.Calm)
    (allowed : ∀ w, asks (.call c) ⟨w, s.log⟩)
    (answered : ∀ (w : World) a t, w.Calm → w.store.perform c = (.ok a, t) →
      (next a).Amid .traced asks ⟨{ w with store := t }, s.log ++ [⟨.call c, w⟩]⟩ done fault)
    (refused : ∀ (w : World) e t, w.Calm → w.store.perform c = (.error e, t) →
      fault (.store e) ⟨{ w with store := t }, s.log ++ [⟨.call c, w⟩]⟩) :
    ((call c).bind next).Amid .traced asks s done fault := by
  -- in a calm world the store answers, and the exchange comes last in the log
  have hhandle : ∀ (w : World) log, w.Calm → Scene.traced.handle (.call c) ⟨w, log⟩
      = ((w.store.perform c).1,
        ⟨{ w with store := (w.store.perform c).2 }, log ++ [⟨.call c, w⟩]⟩) := by
    intro w log calm
    show ((World.handle (.call c) w).1, _) = _
    rw [World.handle_call calm]
  refine amid_call ?_ ?_ ?_
  · rintro ⟨w, log⟩ ⟨rfl, _, _⟩
    exact allowed w
  · rintro ⟨w, log⟩ a u ⟨rfl, hcalm, _⟩ hreply
    rw [hhandle w _ (hcalm calm)] at hreply
    injection hreply with hok hu
    subst hu
    exact answered w a _ (hcalm calm) (Prod.ext hok rfl)
  · rintro ⟨w, log⟩ e u ⟨rfl, hcalm, _⟩ hreply
    rw [hhandle w _ (hcalm calm)] at hreply
    injection hreply with hok hu
    subst hu
    exact refused w e _ (hcalm calm) (Prod.ext hok rfl)

end Pass

/-! ## §3. The latest read of a key -/

/-- The latest read of a key found `o` there. -/
def LastRead (log : List Exchange) (key : Key) (o : Option Object) : Prop :=
  ∃ earlier w later, log = earlier ++ ⟨.call (.get key), w⟩ :: later ∧
    Table.get? w.store.objects key = o ∧ ∀ x ∈ later, x.request ≠ .call (.get key)

theorem LastRead.of_get (log : List Exchange) (key : Key) (w : World) :
    LastRead (log ++ [⟨.call (.get key), w⟩]) key (Table.get? w.store.objects key) :=
  ⟨log, w, [], rfl, rfl, fun _ h => absurd h List.not_mem_nil⟩

theorem LastRead.later {log : List Exchange} {key : Key} {o : Option Object}
    (h : LastRead log key o) {x : Exchange} (other : x.request ≠ .call (.get key)) :
    LastRead (log ++ [x]) key o := by
  obtain ⟨earlier, w, later, rfl, hread, hlater⟩ := h
  -- the read stays where it is, and what comes later is no read of its key
  refine ⟨earlier, w, later ++ [x], by rw [List.append_assoc]; rfl, hread, ?_⟩
  intro y hy
  rcases List.mem_append.mp hy with hy | hy
  · exact hlater y hy
  · rw [List.mem_singleton.mp hy]
    exact other

/-! ## §4. From requests to logs -/

/-- Every exchange of a log is in order, in view of those before it. -/
def Traced.Obeys (rule : Exchange → List Exchange → Prop) (s : Traced) : Prop :=
  ∀ earlier x later, s.log = earlier ++ x :: later → rule x earlier

theorem Traced.Obeys.others {rule : Exchange → List Exchange → Prop} :
    Scene.traced.Keeps (Traced.Obeys rule) := by
  rintro s ⟨w, log⟩ h ⟨rfl, _, _⟩
  exact h

theorem Traced.Obeys.step {rule : Exchange → List Exchange → Prop} {s : Traced}
    (h : s.Obeys rule) {r : Request} (next : rule ⟨r, s.world⟩ s.log) :
    (Scene.traced.handle r s).2.Obeys rule := by
  intro earlier x later hlog
  have hsplit : s.log ++ [⟨r, s.world⟩] = earlier ++ x :: later := hlog
  -- the request is the latest one, or it is among those before
  rcases List.eq_nil_or_concat later with rfl | ⟨later, y, rfl⟩
  · obtain ⟨rfl, hx⟩ := List.append_inj' hsplit rfl
    injection hx with hx
    rw [← hx]
    exact next
  · rw [List.concat_eq_append, ← List.cons_append, ← List.append_assoc] at hsplit
    exact h earlier x later (List.append_inj' hsplit rfl).1

/-- What holds whenever a pass asks holds of every exchange in the logs of its runs. -/
theorem Pass.Amid.obeys {α : Type} {p : Pass α} {asks : Request → Traced → Prop} {w : World}
    {done : α → Traced → Prop} {fault : PassError → Traced → Prop}
    {rule : Exchange → List Exchange → Prop} (h : p.Amid .traced asks ⟨w, []⟩ done fault)
    (sound : ∀ r s, asks r s → rule ⟨r, s.world⟩ s.log) {e : Except PassError α} {s : Traced}
    (run : p.Among .traced ⟨w, []⟩ e s) : s.Obeys rule := by
  have hstart : Traced.Obeys rule ⟨w, []⟩ := by
    intro earlier x later hlog
    exact absurd hlog (by simp)
  have hkept := (h.keep Traced.Obeys.others (fun r t ht hr => ht.step (sound r t hr))
    hstart).among run
  cases e with
  | ok a => exact hkept.1
  | error e => exact hkept.1

/-- What was exchanged stays in the log. -/
theorem Pass.Among.log_subset {α : Type} {p : Pass α} {s t : Traced} {e : Except PassError α}
    (run : p.Among .traced s e t) : s.log ⊆ t.log := by
  induction run with
  | done => exact fun _ h => h
  | fail => exact fun _ h => h
  | @ask _ _ s t _ _ others _ ih =>
    intro x hx
    refine ih (List.mem_append_left _ ?_)
    rw [others.1]
    exact hx

/-- Where all answers in the log of a run are as `A` says, the run asked for nothing but what `P`
    allows. -/
theorem Pass.OnlyIf.exchanged {α : Type} {p : Pass α} {A : (r : Request) → r.Reply → Prop}
    {P : Request → Prop} (h : p.OnlyIf A P) {s t : Traced} {e : Except PassError α}
    (run : p.Among .traced s e t) (before : ∀ x ∈ s.log, P x.request)
    (answered : ∀ x ∈ t.log, A x.request x.reply) : ∀ x ∈ t.log, P x.request := by
  induction run with
  | done => exact before
  | fail => exact before
  | @ask r next s v u e others run ih =>
    -- the exchange comes last in the log, and stays there
    have hanswer : A r (World.handle r v.world).1 :=
      answered ⟨r, v.world⟩ (run.log_subset (List.mem_append_right _ List.mem_cons_self))
    refine ih (h.2 _ hanswer) (fun x hx => ?_) answered
    rcases List.mem_append.mp hx with hx | hx
    · rw [others.1] at hx
      exact before x hx
    · rw [List.mem_singleton.mp hx]
      exact h.1

/-! ## §5. Passes that nobody disturbs -/

/-- A pass in a calm world where nobody else acts. -/
def Scene.alone : Scene Traced where
  handle := Scene.traced.handle
  others s t := t = s
  still _ := rfl
  further h g := g.trans h

namespace Pass

variable {α β : Type} {s : Traced} {done : α → Traced → Prop}

/-- What a pass leaves where nobody else acts, and all that it has exchanged. -/
def trace (p : Pass α) (w : World) : Traced := (p.run Scene.traced.handle ⟨w, []⟩).2

/-- Keeping the exchanges changes nothing. -/
theorem run_traced (p : Pass α) (s : Traced) :
    (p.run Scene.traced.handle s).1 = (p.run World.handle s.world).1 ∧
      (p.run Scene.traced.handle s).2.world = (p.run World.handle s.world).2 := by
  induction p generalizing s with
  | done a => exact ⟨rfl, rfl⟩
  | fail e => exact ⟨rfl, rfl⟩
  | ask r next ih => exact ih _ _

/-- Where nobody else acts the pass is done, and `done` holds of its result and of what it leaves
    and has exchanged. -/
def Traces (p : Pass α) (s : Traced) (done : α → Traced → Prop) : Prop :=
  p.Amid .alone (fun _ _ => True) s done fun _ _ => False

/-- What is known of how a pass runs. -/
theorem Traces.of_run {p : Pass α} {a : α} {t : Traced}
    (ran : p.run Scene.traced.handle s = (.ok a, t)) (ended : done a t) : p.Traces s done := by
  induction p generalizing s with
  | done b =>
    obtain ⟨hb, rfl⟩ := Prod.mk.inj ran
    obtain rfl := Except.ok.inj hb
    exact ended
  | fail e => exact absurd (congrArg Prod.fst ran) nofun
  | ask r next ih =>
    rintro _ rfl
    exact ⟨trivial, ih _ ran⟩

theorem Traces.bind {p : Pass α} {f : α → Pass β} {after : β → Traced → Prop}
    (h : p.Traces s done) (next : ∀ a t, done a t → (f a).Traces t after) :
    (p.bind f).Traces s after := Amid.bind h next

theorem Traces.mono {p : Pass α} {done' : α → Traced → Prop} (h : p.Traces s done)
    (weaker : ∀ a t, done a t → done' a t) : p.Traces s done' :=
  Amid.mono h (fun _ _ h => h) weaker fun _ _ h => h

theorem traces_request {r : Request} {next : r.Reply → Pass α}
    (answered : ∀ t : Traced, t.world = (World.handle r s.world).2 →
      t.log = s.log ++ [⟨r, s.world⟩] → (next (World.handle r s.world).1).Traces t done) :
    ((request r).bind next).Traces s done := by
  rintro t rfl
  exact ⟨trivial, answered _ rfl rfl⟩

/-- A call that the store answers. -/
theorem traces_call {c : StoreCall} {a : c.Reply} {t : Store} {next : c.Reply → Pass α}
    (calm : s.world.Calm) (answer : s.world.store.perform c = (.ok a, t))
    (answered : (next a).Traces
      ⟨{ s.world with store := t }, s.log ++ [⟨.call c, s.world⟩]⟩ done) :
    ((call c).bind next).Traces s done := by
  have hhandle : Scene.alone.handle (.call c) s
      = (.ok a, ⟨{ s.world with store := t }, s.log ++ [⟨.call c, s.world⟩]⟩) := by
    show ((World.handle (.call c) s.world).1, (⟨(World.handle (.call c) s.world).2, _⟩ : Traced))
      = _
    rw [World.handle_call calm, answer]
  refine amid_call (fun _ _ => trivial) ?_ ?_
  · rintro _ b u rfl hreply
    obtain ⟨hb, rfl⟩ := Prod.mk.inj (hhandle.symm.trans hreply)
    obtain rfl := Except.ok.inj hb
    exact answered
  · rintro _ e u rfl hreply
    exact absurd (congrArg Prod.fst (hhandle.symm.trans hreply)) nofun

theorem traces_get {key : Key} {next : Option Object → Pass α} (calm : s.world.Calm)
    (answered : ∀ t : Traced, t.world = { s.world with store := s.world.store.countRead } →
      t.log = s.log ++ [⟨.call (.get key), s.world⟩] →
      (next (Table.get? s.world.store.objects key)).Traces t done) :
    ((call (.get key)).bind next).Traces s done := traces_call calm rfl (answered _ rfl rfl)

/-- A pass that never fails tells no warning. -/
theorem Traces.warned {p : Pass α} (h : p.Traces s done) (root : Root) :
    (Pass.warned root p).Traces s done :=
  Amid.warned h (fun _ h => h) fun _ _ _ _ h => h.elim

/-- What is proved of a pass that nobody disturbs holds of its run. -/
theorem Traces.exists_run {p : Pass α} {w : World} (h : p.Traces ⟨w, []⟩ done) :
    ∃ a, p.run World.handle w = (.ok a, (p.trace w).world) ∧ done a (p.trace w) := by
  have hended := Amid.among h (among_run (S := Scene.alone) p ⟨w, []⟩)
  obtain ⟨hresult, hworld⟩ := run_traced p ⟨w, []⟩
  change Ended done _ (p.run Scene.traced.handle ⟨w, []⟩).1 _ at hended
  rw [hresult] at hended
  cases hrun : (p.run World.handle w).1 with
  | error e =>
    rw [hrun] at hended
    exact hended.elim
  | ok a =>
    rw [hrun] at hended
    exact ⟨a, Prod.ext hrun hworld.symm, hended⟩

end Pass

end Converge
