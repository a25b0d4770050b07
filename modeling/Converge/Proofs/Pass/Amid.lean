/-
  Converge.Proofs.Pass.Amid — passes amid what others do.

  Between two requests of a pass others may act.  A scene says who answers requests and what
  others may do before each of them.  What is proved of a pass on a scene is proved for every way
  in which the others act: what holds whenever the pass asks for something, and what holds when it
  is done or fails.

  Main statements:
    * `Pass.Amid.bind`, `Pass.amid_call`, `Pass.Amid.warned` — from the parts of a pass to the
      whole.
    * `Pass.Amid.keep` — what every request keeps is kept.
    * `Pass.Amid.among` — what is proved of a pass on a scene holds of all its runs there.
    * `Pass.OnlyIf.amid` — an invariant of a pass from what it may ask for.
-/
import Converge.Pass.Reconcile

namespace Converge

/-! ## §1. Scenes and runs -/

/-- Who answers requests, and what others may do before each of them. -/
structure Scene (σ : Type) where
  handle : Pass.Handler σ
  others : σ → σ → Prop
  still : ∀ s, others s s
  further : ∀ {s t u}, others s t → others t u → others s u

/-- What others do is to keep what they keep in one step. -/
def Scene.Keeps {σ : Type} (S : Scene σ) (inv : σ → Prop) : Prop :=
  ∀ s t, inv s → S.others s t → inv t

namespace Pass

variable {σ α β : Type} {S : Scene σ}

/-- The pass runs from one state to another and ends so, others acting before each request. -/
inductive Among (S : Scene σ) : Pass α → σ → Except PassError α → σ → Prop
  | done (a : α) (s : σ) : Among S (.done a) s (.ok a) s
  | fail (e : PassError) (s : σ) : Among S (.fail e) s (.error e) s
  | ask {r : Request} {next : r.Reply → Pass α} {s t u : σ} {e : Except PassError α} :
      S.others s t → Among S (next (S.handle r t).1) (S.handle r t).2 e u →
      Among S (.ask r next) s e u

/-- How the pass runs where others move as planned: one move before each request, and none once
    the plan is over. -/
def runAmid (handle : Handler σ) :
    Pass α → List (σ → σ) → σ → Except PassError α × σ
  | .done a, _, s => (.ok a, s)
  | .fail e, _, s => (.error e, s)
  | .ask r next, moves, s =>
    let t := moves.headD id s
    runAmid handle (next (handle r t).1) moves.tail (handle r t).2

theorem among_runAmid {moves : List (σ → σ)} (allowed : ∀ m ∈ moves, ∀ s, S.others s (m s))
    (p : Pass α) (s : σ) :
    p.Among S s (p.runAmid S.handle moves s).1 (p.runAmid S.handle moves s).2 := by
  induction p generalizing moves s with
  | done a => exact .done a s
  | fail e => exact .fail e s
  | ask r next ih =>
    cases moves with
    | nil => exact .ask (S.still s) (ih _ allowed _)
    | cons move moves =>
      -- one move is used up by each request
      exact .ask (allowed move (by simp) s)
        (ih _ (fun m hm => allowed m (List.mem_cons_of_mem _ hm)) _)

/-- Where the others do nothing a pass runs as it does alone. -/
theorem among_run (p : Pass α) (s : σ) :
    p.Among S s (p.run S.handle s).1 (p.run S.handle s).2 := by
  induction p generalizing s with
  | done a => exact .done a s
  | fail e => exact .fail e s
  | ask r next ih => exact .ask (S.still s) (ih _ _)

/-! ## §2. What holds of all runs -/

/-- Whenever the pass asks, `asks` holds; it ends where `done` or `fault` holds. -/
def Amid (S : Scene σ) (asks : Request → σ → Prop) :
    Pass α → σ → (α → σ → Prop) → (PassError → σ → Prop) → Prop
  | .done a, s, result, _ => result a s
  | .fail e, s, _, fault => fault e s
  | .ask r next, s, result, fault => ∀ t, S.others s t → asks r t ∧
      (next (S.handle r t).1).Amid S asks (S.handle r t).2 result fault

/-- What holds of the end of a pass. -/
def Ended (done : α → σ → Prop) (fault : PassError → σ → Prop) :
    Except PassError α → σ → Prop
  | .ok a, s => done a s
  | .error e, s => fault e s

variable {asks : Request → σ → Prop} {s : σ} {done : α → σ → Prop}
  {fault : PassError → σ → Prop}

theorem Amid.mono {p : Pass α} {asks' : Request → σ → Prop} {done' : α → σ → Prop}
    {fault' : PassError → σ → Prop} (h : p.Amid S asks s done fault)
    (hasks : ∀ r t, asks r t → asks' r t) (hdone : ∀ a t, done a t → done' a t)
    (hfault : ∀ e t, fault e t → fault' e t) : p.Amid S asks' s done' fault' := by
  induction p generalizing s with
  | done a => exact hdone a s h
  | fail e => exact hfault e s h
  | ask r next ih =>
    intro t others
    obtain ⟨hr, hnext⟩ := h t others
    exact ⟨hasks r t hr, ih _ hnext⟩

theorem amid_done {a : α} (h : done a s) : (Pass.done a).Amid S asks s done fault := h

/-- One pass after another starts where the first one ends. -/
theorem Amid.bind {p : Pass α} {f : α → Pass β} {after : β → σ → Prop}
    (h : p.Amid S asks s done fault)
    (next : ∀ a t, done a t → (f a).Amid S asks t after fault) :
    (p.bind f).Amid S asks s after fault := by
  induction p generalizing s with
  | done a => exact next a s h
  | fail e => exact h
  | ask r rest ih =>
    intro t others
    -- others may act before each request of the first part, as in the whole
    obtain ⟨hr, hrest⟩ := h t others
    exact ⟨hr, ih _ hrest⟩

/-- A store call, which others may precede and whose fault ends the pass. -/
theorem amid_call {c : StoreCall} {next : c.Reply → Pass α}
    (allowed : ∀ t, S.others s t → asks (.call c) t)
    (answered : ∀ t a u, S.others s t → S.handle (.call c) t = (.ok a, u) →
      (next a).Amid S asks u done fault)
    (refused : ∀ t e u, S.others s t → S.handle (.call c) t = (.error e, u) →
      fault (.store e) u) :
    ((call c).bind next).Amid S asks s done fault := by
  intro t others
  refine ⟨allowed t others, ?_⟩
  have hok := answered t
  have herror := refused t
  show ((ofReply (S.handle (.call c) t).1).bind next).Amid S asks (S.handle (.call c) t).2 _ _
  -- a fault ends the pass where it is, and an answer goes to the rest
  generalize S.handle (.call c) t = reply at hok herror
  obtain ⟨reply, u⟩ := reply
  cases reply with
  | ok a => exact hok a u others rfl
  | error e => exact herror e u others rfl

/-- What ends a pass is the result of its attempt. -/
theorem Amid.attempt {p : Pass α} (h : p.Amid S asks s done fault) :
    p.attempt.Amid S asks s (Ended done fault) fun _ _ => False := by
  induction p generalizing s with
  | done a => exact h
  | fail e => exact h
  | ask r next ih =>
    intro t others
    obtain ⟨hr, hnext⟩ := h t others
    exact ⟨hr, ih _ hnext⟩

/-- A pass that tells of its faults, unless it was cancelled. -/
theorem Amid.warned {p : Pass α} {root : Root} {fault' : PassError → σ → Prop}
    (h : p.Amid S asks s done fault) (stopped : ∀ t, fault .cancelled t → fault' .cancelled t)
    (told : ∀ e t u, e ≠ .cancelled → fault e t → S.others t u →
      asks (.announce root (failedEvent e)) u ∧
        fault' e (S.handle (.announce root (failedEvent e)) u).2) :
    (Pass.warned root p).Amid S asks s done fault' := by
  refine Amid.bind (h.attempt.mono (fun _ _ h => h) (fun _ _ h => h) fun _ _ h => absurd h id) ?_
  intro ended t hended
  cases ended with
  | ok a => exact hended
  | error e =>
    -- only a cancellation is not told of
    cases e with
    | cancelled => exact stopped t hended
    | invalidSpec e => exact fun u others => told (.invalidSpec e) t u nofun hended others
    | store e => exact fun u others => told (.store e) t u nofun hended others
    | unreadableStatus => exact fun u others => told .unreadableStatus t u nofun hended others

/-- What the others and the requests of a pass keep may be relied on whenever it asks, and when it
    ends. -/
theorem Amid.keep {p : Pass α} {inv : σ → Prop} (h : p.Amid S asks s done fault)
    (others : S.Keeps inv) (step : ∀ r t, inv t → asks r t → inv (S.handle r t).2)
    (start : inv s) :
    p.Amid S (fun r t => inv t ∧ asks r t) s (fun a t => inv t ∧ done a t)
      fun e t => inv t ∧ fault e t := by
  induction p generalizing s with
  | done a => exact ⟨start, h⟩
  | fail e => exact ⟨start, h⟩
  | ask r next ih =>
    intro t hothers
    obtain ⟨hr, hnext⟩ := h t hothers
    -- first the others keep `inv`, and then the request does
    have ht := others s t start hothers
    exact ⟨⟨ht, hr⟩, ih _ hnext (step r t ht hr)⟩

/-- What holds of a pass on a scene holds of each of its runs. -/
theorem Amid.among {p : Pass α} (h : p.Amid S asks s done fault) {u : σ}
    {e : Except PassError α} (run : p.Among S s e u) : Ended done fault e u := by
  induction run with
  | done a s => exact h
  | fail e s => exact h
  | ask hothers _ ih => exact ih (h _ hothers).2

/-! ## §3. What a pass may ask for at all -/

/-- As long as the answers are as `A` says, the pass asks for nothing but what `P` allows. -/
def OnlyIf (A : (r : Request) → r.Reply → Prop) (P : Request → Prop) : Pass α → Prop
  | .done _ => True
  | .fail _ => True
  | .ask r next => P r ∧ ∀ reply, A r reply → (next reply).OnlyIf A P

/-- Whatever it is answered, the pass asks for nothing but what `P` allows. -/
abbrev Only (P : Request → Prop) : Pass α → Prop := OnlyIf (fun _ _ => True) P

variable {A : (r : Request) → r.Reply → Prop} {P : Request → Prop}

theorem OnlyIf.bind {p : Pass α} {f : α → Pass β} (h : p.OnlyIf A P)
    (next : ∀ a, (f a).OnlyIf A P) : (p.bind f).OnlyIf A P := by
  induction p with
  | done a => exact next a
  | fail e => trivial
  | ask r rest ih => exact ⟨h.1, fun reply answer => ih reply (h.2 reply answer)⟩

theorem OnlyIf.mono {p : Pass α} {Q : Request → Prop} (h : p.OnlyIf A P)
    (weaker : ∀ r, P r → Q r) : p.OnlyIf A Q := by
  induction p with
  | done a => trivial
  | fail e => trivial
  | ask r next ih => exact ⟨weaker r h.1, fun reply answer => ih reply (h.2 reply answer)⟩

/-- A store call, and what is made of its answer. -/
theorem onlyIf_call {c : StoreCall} {next : c.Reply → Pass α} (allowed : P (.call c))
    (answered : ∀ a, A (.call c) (.ok a) → (next a).OnlyIf A P) :
    ((call c).bind next).OnlyIf A P := by
  refine ⟨allowed, ?_⟩
  intro reply answer
  cases reply with
  | ok a => exact answered a answer
  | error e => trivial

theorem only_call {c : StoreCall} (allowed : P (.call c)) : (call c).OnlyIf A P := by
  refine ⟨allowed, ?_⟩
  intro reply _
  cases reply <;> trivial

theorem only_request {r : Request} (allowed : P r) : (request r).OnlyIf A P :=
  ⟨allowed, fun _ _ => trivial⟩

theorem OnlyIf.attempt {p : Pass α} (h : p.OnlyIf A P) : p.attempt.OnlyIf A P := by
  induction p with
  | done a => trivial
  | fail e => trivial
  | ask r next ih => exact ⟨h.1, fun reply answer => ih reply (h.2 reply answer)⟩

/-- A pass that may tell events may tell of its faults. -/
theorem OnlyIf.warned {p : Pass α} {root : Root} (h : p.OnlyIf A P)
    (told : ∀ event, P (.announce root event)) : (Pass.warned root p).OnlyIf A P := by
  refine h.attempt.bind fun ended => ?_
  cases ended with
  | ok a => trivial
  | error e =>
    cases e with
    | cancelled => trivial
    | invalidSpec _ | store _ | unreadableStatus =>
      exact (only_request (told _)).bind fun _ => trivial

/-- Where answers are as `A` says as long as `inv` holds, and the requests of the pass and the
    others keep it, it holds whenever the pass asks for something. -/
theorem OnlyIf.amid {p : Pass α} {inv : σ → Prop} {s : σ} (h : p.OnlyIf A P)
    (others : S.Keeps inv) (start : inv s)
    (step : ∀ r t, inv t → P r → A r (S.handle r t).1 ∧ inv (S.handle r t).2) :
    p.Amid S (fun r t => inv t ∧ P r) s (fun _ t => inv t) fun _ t => inv t := by
  induction p generalizing s with
  | done a => exact start
  | fail e => exact start
  | ask r next ih =>
    intro t hothers
    have ht := others s t start hothers
    obtain ⟨hanswer, hinv⟩ := step r t ht h.1
    exact ⟨⟨ht, h.1⟩, ih _ (h.2 _ hanswer) hinv⟩

end Pass

end Converge
