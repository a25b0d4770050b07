/-
  Converge.Proofs.Pass.Logs — what the log of a pass says, whatever the pass is answered.

  The log of a pass, its requests with their answers, tells how far the pass has got and how it
  goes on.  What is proved of logs here holds at every moment of a pass, whoever answers it: after
  any number of requests, and where it fails.

  Main statements:
    * `Pass.Logs.follows` — what a pass says in its log holds wherever it has got to.
    * `Pass.logs_applyAll` — the ledger is told of children whose apply was completed, and of no
      others.
    * `RootResource.marks_pass` — what a pass over a root of either kind tells the ledger.
-/
import Converge.Proofs.Pass.Events

namespace Converge

/-! ## §1. How far a pass has got -/

namespace Pass

variable {α β : Type}

/-- Answered as the log says, the pass has got so far that the rest is left of it. -/
inductive Follows : Pass α → Notes → Pass α → Prop
  | here (p : Pass α) : Follows p [] p
  | ask {r : Request} {next : r.Reply → Pass α} {reply : r.Reply} {log : Notes} {rest : Pass α} :
      Follows (next reply) log rest → Follows (.ask r next) (⟨r, reply⟩ :: log) rest

/-- One more request is answered. -/
theorem Follows.push {p : Pass α} {log : Notes} {r : Request} {next : r.Reply → Pass α}
    (h : p.Follows log (.ask r next)) (reply : r.Reply) :
    p.Follows (log ++ [⟨r, reply⟩]) (next reply) := by
  generalize hrest : Pass.ask r next = rest at h
  -- along the log; the request is what the last of it leaves to be asked
  induction h with
  | here p =>
    subst hrest
    exact .ask (.here _)
  | ask _ ih => exact .ask (ih hrest)

/-- The pass is over, or is about to call the store. -/
def AtStore (p : Pass α) : Prop := ∀ q next, p = .ask q next → ∃ c, q = .call c

/-- A pass that has got to the store has been answered what it asked for before. -/
theorem Follows.past {r : Request} {next : r.Reply → Pass α} {log : Notes} {rest : Pass α}
    (h : (Pass.ask r next).Follows log rest) (far : rest.AtStore) (before : ∀ c, r ≠ .call c) :
    ∃ reply later, log = ⟨r, reply⟩ :: later ∧ (next reply).Follows later rest := by
  cases h with
  | here =>
    obtain ⟨c, hc⟩ := far r next rfl
    exact absurd hc (before c)
  | ask h => exact ⟨_, _, rfl, h⟩

/-- All that was asked for is allowed. -/
theorem OnlyIf.follows {P : Request → Prop} {p rest : Pass α} {log : Notes} (h : p.Only P)
    (follows : p.Follows log rest) : ∀ x ∈ log, P x.request := by
  induction follows with
  | here => exact fun x hx => absurd hx List.not_mem_nil
  | ask _ ih =>
    intro x hx
    rcases List.mem_cons.mp hx with rfl | hx
    · exact h.1
    · exact ih (h.2 _ trivial) x hx

/-! ## §2. What holds all along -/

/-- Whatever the answers are, `mid` holds of the log whenever the pass asks for something and where
    it fails, and `done` where it is done.  It starts with a log. -/
def Logs : Pass α → Notes → (Notes → Prop) → (α → Notes → Prop) → Prop
  | .done a, log, _, result => result a log
  | .fail _, log, mid, _ => mid log
  | .ask r next, log, mid, result =>
    mid log ∧ ∀ reply, (next reply).Logs (log ++ [⟨r, reply⟩]) mid result

variable {log : Notes} {mid : Notes → Prop} {done : α → Notes → Prop}

theorem Logs.mono {p : Pass α} {done' : α → Notes → Prop} (h : p.Logs log mid done)
    (weaker : ∀ a log', done a log' → done' a log') : p.Logs log mid done' := by
  induction p generalizing log with
  | done a => exact weaker a log h
  | fail e => exact h
  | ask r next ih => exact ⟨h.1, fun reply => ih reply (h.2 reply)⟩

theorem Logs.bind {p : Pass α} {f : α → Pass β} {after : β → Notes → Prop}
    (h : p.Logs log mid done) (next : ∀ a log', done a log' → (f a).Logs log' mid after) :
    (p.bind f).Logs log mid after := by
  induction p generalizing log with
  | done a => exact next a log h
  | fail e => exact h
  | ask r rest ih => exact ⟨h.1, fun reply => ih reply (h.2 reply)⟩

theorem logs_request {r : Request} {next : r.Reply → Pass α} (start : mid log)
    (answered : ∀ reply, (next reply).Logs (log ++ [⟨r, reply⟩]) mid done) :
    ((request r).bind next).Logs log mid done := ⟨start, answered⟩

theorem logs_call {c : StoreCall} {next : c.Reply → Pass α} (start : mid log)
    (refused : ∀ e, mid (log ++ [⟨.call c, .error e⟩]))
    (answered : ∀ a, (next a).Logs (log ++ [⟨.call c, .ok a⟩]) mid done) :
    ((call c).bind next).Logs log mid done := by
  refine ⟨start, fun reply => ?_⟩
  cases reply with
  | ok a => exact answered a
  | error e => exact refused e

/-- A pass that tells of its faults. -/
theorem Logs.warned {p : Pass α} {root : Root} (h : p.Logs log mid done)
    (told : ∀ log e, mid log → mid (log ++ [⟨.announce root (failedEvent e), ()⟩])) :
    (Pass.warned root p).Logs log mid done := by
  -- an attempt does not fail, and says by its result where `mid` holds
  have hattempt : p.attempt.Logs log mid fun ended log' => match ended with
      | .ok a => done a log'
      | .error _ => mid log' := by
    clear told
    induction p generalizing log with
    | done a => exact h
    | fail e => exact h
    | ask r next ih => exact ⟨h.1, fun reply => ih reply (h.2 reply)⟩
  refine hattempt.bind fun ended log' hended => ?_
  cases ended with
  | ok a => exact hended
  | error e =>
    cases e with
    | cancelled => exact hended
    | invalidSpec _ | store _ | unreadableStatus => exact ⟨hended, fun _ => told _ _ hended⟩

/-- What every allowed request keeps holds all along. -/
theorem OnlyIf.logs {P : Request → Prop} {p : Pass α} (h : p.Only P) (start : mid log)
    (step : ∀ {log x}, mid log → P x.request → mid (log ++ [x])) :
    p.Logs log mid fun _ log' => mid log' := by
  induction p generalizing log with
  | done a => exact start
  | fail e => exact start
  | ask r next ih => exact ⟨start, fun reply => ih reply (h.2 reply trivial) (step start h.1)⟩

/-- What a pass says in its log holds wherever it has got to. -/
theorem Logs.follows {p rest : Pass α} {more : Notes} (h : p.Logs log mid done)
    (follows : p.Follows more rest) : rest.Logs (log ++ more) mid done := by
  induction follows generalizing log with
  | here p => rwa [List.append_nil]
  | ask _ ih =>
    have hrest := ih (h.2 _)
    rwa [List.append_assoc] at hrest

/-- A pass that is done has followed what the log has more. -/
theorem Logs.stretch {p : Pass α} (h : p.Logs log mid done) : p.Logs log mid fun a log' =>
    done a log' ∧ ∃ more, log' = log ++ more ∧ p.Follows more (.done a) := by
  induction p generalizing log with
  | done a => exact ⟨h, [], (List.append_nil log).symm, .here _⟩
  | fail e => exact h
  | ask r next ih =>
    -- the stretch has the request before what the rest of the pass follows
    refine ⟨h.1, fun reply => (ih reply (h.2 reply)).mono ?_⟩
    rintro a log' ⟨hdone, more, rfl, follows⟩
    exact ⟨hdone, ⟨r, reply⟩ :: more, List.append_assoc log _ more, .ask follows⟩

end Pass

/-! ## §3. What the ledger is told -/

/-- The request does not concern the ledger, unless it reads it. -/
def Request.Aside : Request → Prop
  | .record _ _ _ => False
  | .forget _ => False
  | _ => True

namespace Notes

/-- The ledger was told of a child of a root. -/
def Records (log : Notes) (root child : Key) (owned : Bool) : Prop :=
  ⟨.record root child owned, ()⟩ ∈ log

/-- The ledger was told to drop a root. -/
def Forgets (log : Notes) (root : Key) : Prop := ⟨.forget root, ()⟩ ∈ log

/-- The apply of a child was completed: some stretch of the log is all of it. -/
def Applies (log : Notes) (root : Key) (c : Child) : Prop :=
  ∃ earlier stretch later outcome, log = earlier ++ stretch ++ later ∧
    (Pass.apply root c).Follows stretch (.done outcome)

/-- A child that was built for what is served was applied under a key. -/
def Books (log : Notes) (root : Key) (built : Capabilities → List Child) (key : Key)
    (owned : Bool) : Prop :=
  ∃ caps c, ⟨.capabilities, caps⟩ ∈ log ∧ c ∈ built caps ∧ log.Applies root c ∧ c.key = key ∧
    c.link.isOwned = owned

theorem Books.append {log : Notes} {root : Key} {built : Capabilities → List Child} {key : Key}
    {owned : Bool} (h : log.Books root built key owned) (more : Notes) :
    (log ++ more).Books root built key owned := by
  obtain ⟨caps, c, found, child, ⟨earlier, stretch, later, outcome, rfl, follows⟩, same⟩ := h
  refine ⟨caps, c, List.mem_append_left more found, child, ?_, same⟩
  exact ⟨earlier, stretch, later ++ more, outcome, List.append_assoc _ later more, follows⟩

theorem records_aside {log : Notes} {x : Answered} (aside : x.request.Aside) {root child : Key}
    {owned : Bool} : (log ++ [x]).Records root child owned ↔ log.Records root child owned := by
  have hne : (⟨.record root child owned, ()⟩ : Answered) ≠ x := by
    rintro rfl
    exact aside
  unfold Records
  rw [List.mem_append, List.mem_singleton, or_iff_left hne]

theorem forgets_aside {log : Notes} {x : Answered} (aside : x.request.Aside) {root : Key} :
    (log ++ [x]).Forgets root ↔ log.Forgets root := by
  have hne : (⟨.forget root, ()⟩ : Answered) ≠ x := by
    rintro rfl
    exact aside
  unfold Forgets
  rw [List.mem_append, List.mem_singleton, or_iff_left hne]

theorem records_record {log : Notes} {root child r key : Key} {owned o : Bool} :
    Records (log ++ [⟨.record root child owned, ()⟩]) r key o ↔
      log.Records r key o ∨ (r = root ∧ key = child ∧ o = owned) := by
  unfold Records
  rw [List.mem_append, List.mem_singleton]
  refine or_congr_right ⟨?_, ?_⟩
  · intro heq
    cases heq
    exact ⟨rfl, rfl, rfl⟩
  · rintro ⟨rfl, rfl, rfl⟩
    rfl

theorem forgets_record {log : Notes} {root child r : Key} {owned : Bool} :
    Forgets (log ++ [⟨.record root child owned, ()⟩]) r ↔ log.Forgets r := by
  simp [Forgets]

theorem records_forget {log : Notes} {root r key : Key} {owned : Bool} :
    Records (log ++ [⟨.forget root, ()⟩]) r key owned ↔ log.Records r key owned := by
  simp [Records]

theorem forgets_forget {log : Notes} {root r : Key} :
    Forgets (log ++ [⟨.forget root, ()⟩]) r ↔ log.Forgets r ∨ r = root := by
  unfold Forgets
  rw [List.mem_append, List.mem_singleton]
  refine or_congr_right ⟨?_, ?_⟩
  · intro heq
    cases heq
    rfl
  · rintro rfl
    rfl

/-- A pass over a root is under way: what the ledger was told of was applied, and nothing was
    dropped. -/
structure Open (root : Key) (built : Capabilities → List Child) (log : Notes) : Prop where
  records : ∀ {r child owned}, log.Records r child owned →
    r = root ∧ log.Books root built child owned
  keeps : ∀ r, ¬ log.Forgets r

/-- A pass over a root is done: the root was dropped where it was found to be gone. -/
structure Closed (root : Key) (built : Capabilities → List Child) (log : Notes) : Prop where
  records : ∀ {r child owned}, log.Records r child owned →
    r = root ∧ log.Books root built child owned
  forgets : ∀ r, log.Forgets r ↔ r = root ∧ ¬ log.Finds root

section Open

variable {log : Notes} {root : Key} {built : Capabilities → List Child}

theorem open_nil (root : Key) (built : Capabilities → List Child) : Open root built [] where
  records h := absurd h List.not_mem_nil
  keeps _ := List.not_mem_nil

theorem Open.aside {x : Answered} (h : log.Open root built) (aside : x.request.Aside) :
    (log ++ [x]).Open root built where
  records hrecords := by
    obtain ⟨own, books⟩ := h.records ((records_aside aside).mp hrecords)
    exact ⟨own, books.append _⟩
  keeps r := mt (forgets_aside aside).mp (h.keeps r)

/-- The ledger is told of a child that was applied. -/
theorem Open.record (h : log.Open root built) {child : Key} {owned : Bool}
    (books : Books (log ++ [⟨.record root child owned, ()⟩]) root built child owned) :
    Open root built (log ++ [⟨.record root child owned, ()⟩]) where
  records hrecords := by
    rcases records_record.mp hrecords with hearlier | ⟨rfl, rfl, rfl⟩
    · obtain ⟨own, hbooks⟩ := h.records hearlier
      exact ⟨own, hbooks.append _⟩
    · exact ⟨rfl, books⟩
  keeps r := mt forgets_record.mp (h.keeps r)

/-- The root is there. -/
theorem Open.finds (h : log.Open root built) (there : log.Finds root) : log.Closed root built where
  records := h.records
  forgets r := iff_of_false (h.keeps r) fun hgone => hgone.2 there

/-- The root is gone, and dropped. -/
theorem Open.forget (h : log.Open root built) (gone : ¬ log.Finds root) :
    Closed root built (log ++ [⟨.forget root, ()⟩]) where
  records hrecords := by
    obtain ⟨own, hbooks⟩ := h.records (records_forget.mp hrecords)
    exact ⟨own, hbooks.append _⟩
  forgets r := by
    rw [forgets_forget, finds_aside rfl, or_iff_right (h.keeps r), and_iff_left gone]

end Open

end Notes

/-! ## §4. Passes over roots that stay -/

namespace Pass

variable {log : Notes} {built : Capabilities → List Child} {caps : Capabilities}

/-- The ledger is told of a child at the end of its apply. -/
theorem logs_apply_last {root : Key} {c : Child} {mid : Notes → Prop} (start : mid log)
    (aside : ∀ {log x}, mid log → x.request.Aside → mid (log ++ [x])) :
    (apply root c).Logs log mid fun _ log' => ∃ before,
      log' = before ++ [⟨.record root c.key c.link.isOwned, ()⟩] ∧ mid before := by
  have honly : ((call (.get c.key)).bind (settle c)).Only Request.Aside :=
    (only_call trivial).bind fun _ => only_settle trivial fun _ _ _ _ => trivial
  show ((call (.get c.key)).bind fun stored => (settle c stored).bind fun outcome =>
    (request (.record root c.key c.link.isOwned)).bind fun _ => .done outcome).Logs log _ _
  rw [← bind_assoc]
  exact (honly.logs start aside).bind fun outcome before h => ⟨h, fun _ => ⟨before, rfl, h⟩⟩

theorem logs_apply {root : Key} (start : log.Open root built) (found : ⟨.capabilities, caps⟩ ∈ log)
    {c : Child} (child : c ∈ built caps) :
    (apply root c).Logs log (Notes.Open root built) fun _ log' =>
      log'.Open root built ∧ ⟨.capabilities, caps⟩ ∈ log' := by
  refine (logs_apply_last start Notes.Open.aside).stretch.mono ?_
  rintro outcome log' ⟨⟨before, hlog, hopen⟩, stretch, hstretch, follows⟩
  have hfound : ⟨.capabilities, caps⟩ ∈ log' := by
    rw [hstretch]
    exact List.mem_append_left _ found
  have hbooks : log'.Books root built c.key c.link.isOwned :=
    ⟨caps, c, hfound, child, ⟨log, stretch, [], outcome, by simpa using hstretch, follows⟩,
      rfl, rfl⟩
  subst hlog
  exact ⟨hopen.record hbooks, hfound⟩

theorem logs_applyAll {root : Key} {cs : List Child} (start : log.Open root built)
    (found : ⟨.capabilities, caps⟩ ∈ log) (children : ∀ c ∈ cs, c ∈ built caps) (tally : Tally) :
    (applyAll root cs tally).Logs log (Notes.Open root built) fun _ log' =>
      log'.Open root built := by
  -- by induction on the children; what was found to be served stays in the log
  induction cs generalizing log tally with
  | nil => exact start
  | cons c cs ih =>
    refine logs_request start fun cancelled => ?_
    have hasked : Notes.Open root built (log ++ [⟨.isCancelled, cancelled⟩]) := start.aside trivial
    cases cancelled with
    | true => exact hasked
    | false =>
      refine (logs_apply hasked (List.mem_append_left _ found)
        (children c List.mem_cons_self)).bind fun outcome log' h => ?_
      exact ih h.1 h.2 (fun d hd => children d (List.mem_cons_of_mem _ hd)) _

/-- The last read of the root is the one with which the write of its status begins. -/
theorem logs_writeStatus {root : Key} (start : log.Open root built) {τ : Type} [DecidableEq τ]
    (form : StatusForm τ) (generation : Option Int64) (verdict : Verdict) (now : String)
    (change : τ → τ) :
    (writeStatus form root generation verdict now change).Logs log (Notes.Open root built)
      fun outcome log' => log'.Open root built ∧ (outcome = .rootGone ↔ ¬ log'.Finds root) := by
  refine logs_call start (fun _ => start.aside trivial) fun stored => ?_
  have hfinds := Notes.finds_get log root stored
  have hget : Notes.Open root built (log ++ [⟨.call (.get root), .ok stored⟩]) :=
    start.aside trivial
  cases stored with
  | none => exact ⟨hget, by simp [hfinds]⟩
  | some o =>
    cases hstatus : form.stored? o.data with
    | none =>
      simp only [hstatus]
      exact hget
    | some status =>
      simp only [hstatus]
      split
      · exact ⟨hget, by simp [hfinds]⟩
      · refine logs_call hget (fun _ => hget.aside trivial) fun _ => ⟨hget.aside trivial, ?_⟩
        rw [Notes.finds_aside rfl]
        simp [hfinds]

theorem logs_finish {root : Root} (start : log.Open root.key built) (settings : Settings)
    (tally : Tally) {outcome : StatusWrite} (gone : outcome = .rootGone ↔ ¬ log.Finds root.key) :
    (finish settings root tally outcome).Logs log (Notes.Open root.key built) fun _ log' =>
      log'.Closed root.key built := by
  by_cases hgone : outcome = .rootGone
  · -- the only request of such a pass that drops anything, and its last one
    subst hgone
    exact logs_request start fun _ => start.forget (gone.mp rfl)
  · have hfinds : log.Finds root.key := not_not.mp (mt gone.mpr hgone)
    rw [finish_of_there settings root tally hgone]
    split
    · refine logs_request start fun _ => ?_
      refine Notes.Open.finds (start.aside trivial) ?_
      rwa [Notes.finds_aside rfl]
    · exact start.finds hfinds

end Pass

/-- A completed apply has told the ledger of its child. -/
theorem Notes.Applies.records {log : Notes} {root : Key} {c : Child} (h : log.Applies root c) :
    log.Records root c.key c.link.isOwned := by
  obtain ⟨earlier, stretch, later, outcome, rfl, follows⟩ := h
  have hlast : (Pass.apply root c).Logs [] (fun _ => True) _ :=
    Pass.logs_apply_last trivial fun _ _ => trivial
  obtain ⟨before, heq, -⟩ := hlast.follows follows
  rw [List.nil_append] at heq
  rw [heq]
  exact List.mem_append_left _ (List.mem_append_right _ (by simp))

namespace Plan

variable {τ : Type} [DecidableEq τ] {p : Plan τ} {log : Notes}

theorem logs_goOn (start : log.Open p.root.key p.children) (settings : Settings) :
    (p.goOn settings).Logs log (Notes.Open p.root.key p.children) fun _ log' =>
      log'.Closed p.root.key p.children := by
  refine Pass.logs_request start fun caps => ?_
  have hfound : (⟨.capabilities, caps⟩ : Answered) ∈ log ++ [⟨.capabilities, caps⟩] := by simp
  have happlied : (Pass.applyAndObserve p.root (p.children caps)).Logs
      (log ++ [⟨.capabilities, caps⟩]) (Notes.Open p.root.key p.children) fun _ log' =>
        log'.Open p.root.key p.children := by
    have hserved : Notes.Open p.root.key p.children (log ++ [⟨.capabilities, caps⟩]) :=
      start.aside trivial
    refine (Pass.logs_applyAll hserved hfound (fun _ hc => hc) {}).bind
      fun tally log' h => ?_
    exact ((Pass.only_observe fun _ _ => trivial).logs h Notes.Open.aside).bind fun _ _ h => h
  refine happlied.bind fun seen log' hseen => ?_
  refine Pass.logs_request hseen fun now => ?_
  have hclock : Notes.Open p.root.key p.children (log' ++ [⟨.clock, now⟩]) := hseen.aside trivial
  exact (Pass.logs_writeStatus hclock p.form _ _ _ _).bind fun outcome log' hwritten =>
    Pass.logs_finish hwritten.1 settings seen.1 hwritten.2

theorem logs_steps (settings : Settings) :
    (p.steps settings).Logs [] (Notes.Open p.root.key p.children) fun _ log' =>
      log'.Closed p.root.key p.children := by
  rw [p.steps_eq]
  have hheld : (Pass.holdIfLinked settings p.root p.linked).Only Request.Aside :=
    Pass.only_holdIfLinked trivial (fun _ => trivial) settings p.linked
  exact (hheld.logs (Notes.open_nil _ _) Notes.Open.aside).bind fun _ _ h => logs_goOn h settings

end Plan

/-! ## §5. Passes over roots that are being deleted -/

/-- The request tells the ledger nothing but to drop a root. -/
def Request.Frees (root : Key) : Request → Prop
  | .record _ _ _ => False
  | .forget r => r = root
  | _ => True

namespace Pass

theorem letsGo_frees (root : Root) (caps : Capabilities) :
    LetsGo (Request.Frees root.key) root caps where
  known := trivial
  forget := rfl
  get := trivial
  update _ := trivial
  list _ _ _ _ := trivial
  delete _ _ := trivial

theorem frees_release (settings : Settings) (root : Root) (namespaces : Roster String) :
    (release settings root namespaces).Only (Request.Frees root.key) :=
  ⟨trivial, fun caps _ => (only_releaseRoot (letsGo_frees root caps) _).bind fun _ => trivial⟩

/-- The root is dropped with the third request, before the first call. -/
theorem forgets_release {settings : Settings} {root : Root} {namespaces : Roster String}
    {log : Notes} {rest : Pass NextLook}
    (follows : (warned root (release settings root namespaces)).Follows log rest)
    (far : rest.AtStore) : log.Forgets root.key := by
  have hcaps : ∀ c, Request.capabilities ≠ .call c := by rintro _ ⟨⟩
  have hlinked : ∀ c, Request.linkedChildren root.key ≠ .call c := by rintro _ ⟨⟩
  have hdrop : ∀ c, Request.forget root.key ≠ .call c := by rintro _ ⟨⟩
  obtain ⟨caps, _, rfl, hknown⟩ := Follows.past follows far hcaps
  obtain ⟨known, _, rfl, hforget⟩ := Follows.past hknown far hlinked
  obtain ⟨_, _, rfl, -⟩ := Follows.past hforget far hdrop
  exact List.mem_cons_of_mem _ (List.mem_cons_of_mem _ List.mem_cons_self)

end Pass

/-! ## §6. The whole -/

/-- What a pass over a root object has told the ledger so far. -/
structure RootResource.Marks (r : RootResource) (log : Notes) (rest : Pass NextLook) : Prop where
  /-- Children are recorded for a root that stays, once their apply is completed. -/
  records : ∀ {root child owned}, log.Records root child owned →
    root = r.root.key ∧ r.metadata.deletionTimestamp = none ∧
      log.Books r.root.key r.children child owned
  own : ∀ {root}, log.Forgets root → root = r.root.key
  /-- A root that stays is dropped at the end of a pass that has found it gone. -/
  gone : r.metadata.deletionTimestamp = none →
    (log.Forgets r.root.key ↔ (∃ look, rest = .done look) ∧ ¬ log.Finds r.root.key)
  /-- A root that is being deleted is dropped before the first call. -/
  freed : r.metadata.deletionTimestamp ≠ none → rest.AtStore → log.Forgets r.root.key

/-- Wherever a pass over a root of either kind has got to, whatever it was answered. -/
theorem RootResource.marks_pass {settings : Settings} {r : RootResource} {log : Notes}
    {rest : Pass NextLook} (follows : (r.pass settings).Follows log rest) : r.Marks log rest := by
  cases hdeleted : r.metadata.deletionTimestamp with
  | some time =>
    rw [r.pass_of_deleted settings hdeleted] at follows
    have hfrees := ((Pass.frees_release settings r.root r.linked).warned
      fun _ => trivial).follows follows
    exact
      { records := fun h => absurd (hfrees _ h) id
        own := fun h => hfrees _ h
        gone := fun h => absurd (hdeleted.symm.trans h) nofun
        freed := fun _ far => Pass.forgets_release follows far }
  | none =>
    obtain ⟨τ, _, p, plans, hpass⟩ := r.exists_steps settings hdeleted
    rw [hpass] at follows
    have hsteps : ((Pass.ofCheck r.defaulted.validate).bind fun _ => p.steps settings).Logs []
        (Notes.Open r.root.key r.children) fun _ log' => log'.Closed r.root.key r.children := by
      rw [← plans.root, ← funext plans.children]
      cases r.defaulted.validate with
      | error e => exact Notes.open_nil _ _
      | ok _ => exact Plan.logs_steps settings
    have hrest := (hsteps.warned fun _ _ h => h.aside trivial).follows follows
    rw [List.nil_append] at hrest
    have hstays : r.metadata.deletionTimestamp ≠ none → rest.AtStore → log.Forgets r.root.key :=
      fun h => absurd hdeleted h
    -- as long as the pass is not done nothing is dropped
    have hopen : log.Open r.root.key r.children → (∀ look, rest ≠ .done look) → r.Marks log rest :=
      fun h undone =>
        { records := fun hrec => ⟨(h.records hrec).1, hdeleted, (h.records hrec).2⟩
          own := fun hforgets => absurd hforgets (h.keeps _)
          gone := fun _ => iff_of_false (h.keeps _) fun ⟨⟨look, hdone⟩, _⟩ => undone look hdone
          freed := hstays }
    cases rest with
    | ask q next => exact hopen hrest.1 nofun
    | fail e => exact hopen hrest nofun
    | done look =>
      exact
        { records := fun hrec => ⟨(hrest.records hrec).1, hdeleted, (hrest.records hrec).2⟩
          own := fun hforgets => ((hrest.forgets _).mp hforgets).1
          gone := fun _ => by simp [hrest.forgets]
          freed := hstays }

end Converge
