/-
  Converge.Proofs.Pass.Events — what a pass tells, and what it counts.

  A noted scene keeps every request of a pass with its answer.  Who answers is open, and so is what
  others do before each request: what is proved here holds for every store, wherever faults or a
  shutdown cut the pass short, and whatever others write meanwhile.  A pass tells nothing until it
  is done or has failed, and what it counts on the way is what its calls were answered.

  Main statements:
    * `Pass.hushed_applyAll` — the tally counts the children that were created and updated.
    * `Plan.hushed_goOn` — what is told in the end, and what of.
    * `RootResource.tells_pass` — the events of every run of a pass.
    * `World.events_eq_told` — they are what a world has more in its list of events.
-/
import Converge.Proofs.Pass.Footprint

namespace Converge

/-! ## §1. Notes -/

/-- A request of a pass, and what it was answered. -/
structure Answered where
  request : Request
  reply : request.Reply

namespace Answered

/-- The event that was told, and the root it was told of. -/
def told? : Answered → Option (Root × Event)
  | ⟨.announce root event, _⟩ => some (root, event)
  | _ => none

/-- The kinds that were found to be served. -/
def found? : Answered → Option Capabilities
  | ⟨.capabilities, caps⟩ => some caps
  | _ => none

/-- The key of an object that was created. -/
def created? : Answered → Option Key
  | ⟨.call (.create key _), .ok _⟩ => some key
  | _ => none

/-- The key of an object that was replaced; a write of its status alone does not count. -/
def updated? : Answered → Option Key
  | ⟨.call (.update key _), .ok _⟩ => some key
  | _ => none

/-- What was read of a key. -/
def read? (key : Key) : Answered → Option (Option Object)
  | ⟨.call (.get k), .ok stored⟩ => if k = key then some stored else none
  | _ => none

end Answered

/-- What a pass has asked for and was answered; the latest request comes last. -/
abbrev Notes := List Answered

namespace Notes

/-- The events that were told. -/
def told (log : Notes) : List (Root × Event) := log.filterMap Answered.told?

/-- How many objects were created under some keys. -/
def creations (keys : List Key) (log : Notes) : Nat :=
  (log.filterMap Answered.created?).countP (· ∈ keys)

/-- How many objects were replaced under some keys. -/
def updates (keys : List Key) (log : Notes) : Nat :=
  (log.filterMap Answered.updated?).countP (· ∈ keys)

/-- The latest read of a key has found an object there. -/
def Finds (log : Notes) (key : Key) : Prop :=
  ∃ o, (log.filterMap (Answered.read? key)).getLast? = some (some o)

theorem filterMap_push {β : Type} (f : Answered → Option β) (log : Notes) (x : Answered) :
    (log ++ [x]).filterMap f = log.filterMap f ++ (f x).toList := by
  rw [List.filterMap_append]
  cases hx : f x <;> simp [hx]

theorem told_push (log : Notes) (x : Answered) :
    told (log ++ [x]) = log.told ++ x.told?.toList := filterMap_push _ log x

theorem finds_get (log : Notes) (key : Key) (stored : Option Object) :
    Finds (log ++ [⟨.call (.get key), .ok stored⟩]) key ↔ stored ≠ none := by
  unfold Finds
  rw [filterMap_push]
  simp [Answered.read?, Option.ne_none_iff_exists']

theorem finds_aside {log : Notes} {key : Key} {x : Answered} (other : x.read? key = none) :
    Finds (log ++ [x]) key ↔ log.Finds key := by
  unfold Finds
  rw [filterMap_push, other, Option.toList_none, List.append_nil]

/-- What a log says of the kinds that were found, of writes under some keys, and of events. -/
structure Counts (keys : List Key) (found : List Capabilities) (tally : Tally)
    (told : List (Root × Event)) (log : Notes) : Prop where
  found : log.filterMap Answered.found? = found
  created : log.creations keys = tally.created
  updated : log.updates keys = tally.updated
  told : log.told = told

section Counts

variable {keys : List Key} {found : List Capabilities} {tally : Tally}
  {told : List (Root × Event)} {log : Notes}

theorem Counts.push (h : log.Counts keys found tally told) (x : Answered) {tally' : Tally}
    (created : tally'.created = tally.created + x.created?.toList.countP (· ∈ keys))
    (updated : tally'.updated = tally.updated + x.updated?.toList.countP (· ∈ keys)) :
    (log ++ [x]).Counts keys (found ++ x.found?.toList) tally' (told ++ x.told?.toList) := by
  refine ⟨?_, ?_, ?_, ?_⟩
  · rw [filterMap_push, h.found]
  · rw [creations, filterMap_push, List.countP_append, created, ← h.created, creations]
  · rw [updates, filterMap_push, List.countP_append, updated, ← h.updated, updates]
  · rw [told_push, h.told]

/-- A store call is counted where it wrote an object under one of the keys. -/
theorem Counts.write (h : log.Counts keys found tally told) {x : Answered} {tally' : Tally}
    (silent : x.told? = none) (served : x.found? = none)
    (created : tally'.created = tally.created + x.created?.toList.countP (· ∈ keys))
    (updated : tally'.updated = tally.updated + x.updated?.toList.countP (· ∈ keys)) :
    (log ++ [x]).Counts keys found tally' told := by
  have hpush := h.push x created updated
  rwa [silent, served, Option.toList_none, Option.toList_none, List.append_nil,
    List.append_nil] at hpush

/-- All other requests count for nothing. -/
theorem Counts.aside (h : log.Counts keys found tally told) {x : Answered}
    (silent : x.told? = none) (served : x.found? = none) (created : x.created? = none)
    (updated : x.updated? = none) : (log ++ [x]).Counts keys found tally told := by
  refine h.write silent served ?_ ?_
  · rw [created]
    rfl
  · rw [updated]
    rfl

end Counts

/-- So far nothing was found to be served, nothing was told, and nothing was written but the
    root. -/
def Begins (root : Key) (log : Notes) : Prop :=
  ∀ keys, root ∉ keys → log.Counts keys [] {} []

theorem Begins.silent {root : Key} {log : Notes} (h : log.Begins root) : log.told = [] :=
  (h [] List.not_mem_nil).told

theorem begins_nil (root : Key) : Begins root [] := fun _ _ => ⟨rfl, rfl, rfl, rfl⟩

end Notes

/-- A scene in which all that a pass asks for and is answered is noted. -/
def Scene.noted {σ : Type} (S : Scene σ) : Scene (σ × Notes) where
  handle r s := ((S.handle r s.1).1, (S.handle r s.1).2, s.2 ++ [⟨r, (S.handle r s.1).1⟩])
  others s t := S.others s.1 t.1 ∧ t.2 = s.2
  still s := ⟨S.still s.1, rfl⟩
  further h g := ⟨S.further h.1 g.1, g.2.trans h.2⟩

/-! ## §2. Parts of a pass -/

namespace Pass

variable {σ α β : Type} {S : Scene σ} {log : Notes} {done : α → Notes → Prop}

/-- Whatever the answers are, `done` holds when the pass is done, and nothing is told before it
    fails. -/
def Hushed (S : Scene σ) (p : Pass α) (log : Notes) (done : α → Notes → Prop) : Prop :=
  ∀ s, p.Amid S.noted (fun _ _ => True) (s, log) (fun a t => done a t.2) fun _ t => t.2.told = []

theorem Hushed.bind {p : Pass α} {f : α → Pass β} {after : β → Notes → Prop}
    (h : p.Hushed S log done) (next : ∀ a log', done a log' → (f a).Hushed S log' after) :
    (p.bind f).Hushed S log after :=
  fun s => Amid.bind (h s) fun a t ht => next a t.2 ht t.1

theorem hushed_done {a : α} (h : done a log) : (Pass.done a).Hushed S log done := fun _ => h

theorem hushed_request {r : Request} {next : r.Reply → Pass α}
    (answered : ∀ reply, (next reply).Hushed S (log ++ [⟨r, reply⟩]) done) :
    ((request r).bind next).Hushed S log done := by
  rintro s ⟨t, _⟩ ⟨_, rfl⟩
  exact ⟨trivial, answered _ _⟩

/-- A store call, whose fault ends the pass. -/
theorem hushed_call {c : StoreCall} {next : c.Reply → Pass α} (silent : log.told = [])
    (answered : ∀ a, (next a).Hushed S (log ++ [⟨.call c, .ok a⟩]) done) :
    ((call c).bind next).Hushed S log done := by
  intro s
  have hlog : ∀ (t : σ × Notes) reply u, S.noted.others (s, log) t →
      S.noted.handle (.call c) t = (reply, u) → u.2 = log ++ [⟨.call c, reply⟩] := by
    rintro ⟨t, _⟩ reply u ⟨_, rfl⟩ hreply
    obtain ⟨rfl, rfl⟩ := Prod.mk.inj hreply
    rfl
  refine amid_call (fun _ _ => trivial) ?_ ?_
  · intro t a u hothers hreply
    have hnext := answered a u.1
    rwa [← hlog t _ u hothers hreply] at hnext
  · intro t e u hothers hreply
    show u.2.told = []
    rw [hlog t _ u hothers hreply, Notes.told_push, silent]
    rfl

variable {keys : List Key} {found : List Capabilities} {tally : Tally}

/-- Holding a root is not counted among the writes of its children. -/
theorem hushed_holdRoot {root : Root} (start : log.Begins root.key) (linked : Roster String) :
    (holdRoot root linked).Hushed S log fun _ log' => log'.Begins root.key := by
  refine hushed_call start.silent fun stored => ?_
  have hget : Notes.Begins root.key (log ++ [⟨.call (.get root.key), .ok stored⟩]) :=
    fun keys apart => (start keys apart).aside rfl rfl rfl rfl
  cases stored with
  | none => exact hushed_done hget
  | some o =>
    cases hm : Finalizer.hold? o.metadata linked with
    | none =>
      simp only [hm]
      exact hushed_done hget
    | some m =>
      simp only [hm]
      refine hushed_call hget.silent fun a => hushed_done fun keys apart => ?_
      exact (hget keys apart).write rfl rfl rfl (by simp [Answered.updated?, apart])

theorem hushed_holdIfLinked {root : Root} (start : log.Begins root.key) (settings : Settings)
    (linked : Roster String) :
    (holdIfLinked settings root linked).Hushed S log fun _ log' => log'.Begins root.key := by
  unfold holdIfLinked
  split
  · exact (hushed_holdRoot start linked).bind fun _ _ h => hushed_done h
  · exact hushed_done start

/-- What became of a child is what the store has answered. -/
theorem hushed_settle (counts : log.Counts keys found tally []) {c : Child} (mem : c.key ∈ keys)
    (stored : Option Object) :
    (settle c stored).Hushed S log fun outcome log' =>
      log'.Counts keys found (tally.count outcome) [] := by
  cases stored with
  | none =>
    refine hushed_call counts.told fun a => hushed_done ?_
    exact counts.write rfl rfl (by simp [Answered.created?, Tally.count, mem]) rfl
  | some cur =>
    unfold settle
    cases hn : c.amend? cur with
    | none =>
      simp only [hn]
      -- a child that is left as it is counts apart
      exact hushed_done ⟨counts.found, counts.created, counts.updated, counts.told⟩
    | some next =>
      simp only [hn]
      refine hushed_call counts.told fun a => hushed_done ?_
      exact counts.write rfl rfl rfl (by simp [Answered.updated?, Tally.count, mem])

theorem hushed_apply (counts : log.Counts keys found tally []) {c : Child} (mem : c.key ∈ keys)
    (root : Key) :
    (apply root c).Hushed S log fun outcome log' =>
      log'.Counts keys found (tally.count outcome) [] := by
  refine hushed_call counts.told fun stored => ?_
  refine (hushed_settle (counts.aside rfl rfl rfl rfl) mem stored).bind fun outcome log' h => ?_
  exact hushed_request fun _ => hushed_done (h.aside rfl rfl rfl rfl)

/-- The tally counts the children that were created and updated. -/
theorem hushed_applyAll (counts : log.Counts keys found tally []) {cs : List Child}
    (mem : ∀ c ∈ cs, c.key ∈ keys) (root : Key) :
    (applyAll root cs tally).Hushed S log fun tally' log' =>
      log'.Counts keys found tally' [] := by
  -- by induction on the children; the tally so far is what the log says
  induction cs generalizing log tally with
  | nil => exact hushed_done counts
  | cons c cs ih =>
    refine hushed_request fun cancelled => ?_
    have hasked : Notes.Counts keys found tally [] (log ++ [⟨.isCancelled, cancelled⟩]) :=
      counts.aside rfl rfl rfl rfl
    cases cancelled with
    | true => exact fun _ => hasked.told
    | false =>
      exact (hushed_apply hasked (mem c List.mem_cons_self) root).bind fun outcome log' h =>
        ih h fun d hd => mem d (List.mem_cons_of_mem _ hd)

theorem hushed_observe (counts : log.Counts keys found tally []) (observed : List Key) :
    (observe observed).Hushed S log fun _ log' => log'.Counts keys found tally [] := by
  induction observed generalizing log with
  | nil => exact hushed_done counts
  | cons key observed ih =>
    refine hushed_call counts.told fun stored => ?_
    exact (ih (counts.aside rfl rfl rfl rfl)).bind fun _ _ h => hushed_done h

theorem hushed_applyAndObserve (counts : log.Counts keys found {} []) {cs : List Child}
    (mem : ∀ c ∈ cs, c.key ∈ keys) (root : Root) :
    (applyAndObserve root cs).Hushed S log fun seen log' =>
      log'.Counts keys found seen.1 [] := by
  refine (hushed_applyAll counts mem root.key).bind fun tally log' h => ?_
  exact (hushed_observe h _).bind fun _ _ h => hushed_done h

/-- The write of the status begins with the latest read of the root, and tells whether it was
    found. -/
theorem hushed_writeStatus (counts : log.Counts keys found tally []) {τ : Type} [DecidableEq τ]
    (form : StatusForm τ) (root : Key) (generation : Option Int64) (verdict : Verdict)
    (now : String) (change : τ → τ) :
    (writeStatus form root generation verdict now change).Hushed S log fun outcome log' =>
      log'.Counts keys found tally [] ∧ (outcome = .rootGone ↔ ¬ log'.Finds root) := by
  refine hushed_call counts.told fun stored => ?_
  have hfinds := Notes.finds_get log root stored
  have hget : Notes.Counts keys found tally [] (log ++ [⟨.call (.get root), .ok stored⟩]) :=
    counts.aside rfl rfl rfl rfl
  cases stored with
  | none => exact hushed_done ⟨hget, by simp [hfinds]⟩
  | some o =>
    cases hstatus : form.stored? o.data with
    | none =>
      simp only [hstatus]
      exact fun _ => hget.told
    | some status =>
      simp only [hstatus]
      split
      · exact hushed_done ⟨hget, by simp [hfinds]⟩
      · refine hushed_call hget.told fun a => hushed_done ⟨hget.aside rfl rfl rfl rfl, ?_⟩
        -- the write is no read, and what was found stays
        rw [Notes.finds_aside rfl]
        simp [hfinds]

/-- What is told at the end of a pass. -/
def tellings (root : Root) (tally : Tally) (outcome : StatusWrite) : List (Root × Event) :=
  if outcome ≠ .rootGone ∧ tally.changed = true then [(root, appliedEvent tally)] else []

theorem hushed_finish (counts : log.Counts keys found tally []) (settings : Settings)
    {root : Root} {outcome : StatusWrite} (gone : outcome = .rootGone ↔ ¬ log.Finds root.key) :
    (finish settings root tally outcome).Hushed S log fun _ log' =>
      log'.Counts keys found tally (tellings root tally outcome) ∧
        (outcome = .rootGone ↔ ¬ log'.Finds root.key) := by
  unfold tellings
  by_cases hgone : outcome = .rootGone
  · rw [if_neg fun h => h.1 hgone]
    subst hgone
    refine hushed_request fun _ => hushed_done ⟨counts.aside rfl rfl rfl rfl, ?_⟩
    rwa [Notes.finds_aside rfl]
  · rw [finish_of_there settings root tally hgone]
    by_cases hchanged : tally.changed = true
    · rw [if_pos hchanged, if_pos ⟨hgone, hchanged⟩]
      refine hushed_request fun _ => hushed_done ⟨?_, ?_⟩
      · -- this is the one event
        have hpush : Notes.Counts keys (found ++ []) tally [(root, appliedEvent tally)]
            (log ++ [⟨.announce root (appliedEvent tally), ()⟩]) :=
          counts.push ⟨.announce root (appliedEvent tally), ()⟩ rfl rfl
        rwa [List.append_nil] at hpush
      · rwa [Notes.finds_aside rfl]
    · rw [if_neg hchanged, if_neg fun h => hchanged h.2]
      exact hushed_done ⟨counts, gone⟩

/-- A pass that releases its root tells nothing. -/
theorem hushed_release (silent : log.told = []) (settings : Settings) (root : Root)
    (namespaces : Roster String) :
    (release settings root namespaces).Hushed S log fun _ log' => log'.told = [] := by
  -- nothing that the release of a root asks for tells an event
  have hreleases : Releases (fun _ _ => True) (fun r => ∀ reply, Answered.told? ⟨r, reply⟩ = none)
      root :=
    { get _ := rfl
      capabilities _ := rfl
      isCancelled _ := rfl
      clock _ := rfl
      record _ _ _ := rfl
      forget _ := rfl
      report _ _ := rfl
      known _ := rfl
      update _ _ := rfl
      list _ _ _ _ _ _ _ := rfl
      delete _ _ _ _ _ := rfl }
  have honly := only_release hreleases settings namespaces
  have hothers : S.noted.Keeps fun s => s.2.told = [] := by
    rintro s ⟨t, _⟩ h ⟨_, rfl⟩
    exact h
  intro s
  refine (honly.amid hothers silent ?_).mono (fun _ _ _ => trivial) (fun _ _ h => h) fun _ _ h => h
  intro r t ht hr
  refine ⟨trivial, ?_⟩
  show Notes.told (t.2 ++ [_]) = []
  rw [Notes.told_push, ht, hr]
  rfl

end Pass

/-! ## §3. The whole -/

namespace Plan

variable {σ τ : Type} [DecidableEq τ] {S : Scene σ} {p : Plan τ} {log : Notes}

/-- What a pass over a plan that is done says in its log: what was found to be served, which
    children were written, and what was told of them, unless the root was gone. -/
def Concludes (p : Plan τ) (log : Notes) : Prop :=
  ∃ caps tally outcome,
    log.Counts ((p.children caps).map Child.key) [caps] tally
      (Pass.tellings p.root tally outcome) ∧
    (outcome = .rootGone ↔ ¬ log.Finds p.root.key)

/-- Once the root is held, what is told in the end is told of the children that were written. -/
theorem hushed_goOn (start : log.Begins p.root.key) (settings : Settings) :
    (p.goOn settings).Hushed S log fun _ log' => p.Concludes log' := by
  refine Pass.hushed_request fun caps => ?_
  have apart : p.root.key ∉ (p.children caps).map Child.key := by
    intro hmem
    obtain ⟨c, hc, hkey⟩ := List.mem_map.mp hmem
    exact p.apart caps c hc hkey
  have hserved : Notes.Counts ((p.children caps).map Child.key) [caps] {} []
      (log ++ [⟨.capabilities, caps⟩]) := (start _ apart).push ⟨.capabilities, caps⟩ rfl rfl
  refine (Pass.hushed_applyAndObserve hserved (fun c hc => List.mem_map_of_mem hc) p.root).bind
    fun seen log' happlied => ?_
  refine Pass.hushed_request fun now => ?_
  refine (Pass.hushed_writeStatus (happlied.aside rfl rfl rfl rfl) p.form p.root.key
    p.generation (Verdict.ofObservations p.text seen.2) now (p.change seen.2)).bind
      fun outcome log' hwritten => ?_
  intro s
  refine (Pass.hushed_finish hwritten.1 settings hwritten.2 s).mono (fun _ _ h => h) ?_
    fun _ _ h => h
  exact fun _ t ht => ⟨caps, seen.1, outcome, ht⟩

theorem hushed_steps (settings : Settings) :
    (p.steps settings).Hushed S [] fun _ log' => p.Concludes log' := by
  rw [p.steps_eq]
  exact (Pass.hushed_holdIfLinked (Notes.begins_nil p.root.key) settings p.linked).bind
    fun _ _ h => hushed_goOn h settings

end Plan

namespace RootResource

/-- The keys of the children of a root, as it has them by what was found to be served. -/
def built (r : RootResource) (log : Notes) : List Key :=
  (log.filterMap Answered.found?).flatMap fun caps => (r.children caps).map Child.key

/-- How many children were created. -/
def creations (r : RootResource) (log : Notes) : Nat := log.creations (r.built log)

/-- How many children were updated. -/
def updates (r : RootResource) (log : Notes) : Nat := log.updates (r.built log)

/-- What a pass over a root object tells that ends as `e` says. -/
structure Tells (r : RootResource) (e : Except PassError NextLook) (log : Notes) : Prop where
  once : log.told.length ≤ 1
  own : ∀ x ∈ log.told, x.1 = r.root
  /-- A warning is told where the pass fails, unless it was cancelled. -/
  warning : (∃ x ∈ log.told, x.2.severity = .warning) ↔
    ∃ fault, e = .error fault ∧ fault ≠ .cancelled
  /-- It has the text of the fault. -/
  fault : ∀ x ∈ log.told, x.2.severity = .warning →
    ∃ fault, e = .error fault ∧ x.2.note = some fault.message
  /-- All other events are of children that were written in a pass that is done. -/
  normal : (∃ x ∈ log.told, x.2.severity = .normal) ↔
    r.metadata.deletionTimestamp = none ∧ (∃ look, e = .ok look) ∧ log.Finds r.root.key ∧
      0 < r.creations log + r.updates log
  /-- They say how many children were created, and how many were updated. -/
  counts : ∀ x ∈ log.told, x.2.severity = .normal → x.2.note
    = some (toString (r.creations log) ++ " created, " ++ toString (r.updates log) ++ " updated")

variable {r : RootResource} {log : Notes}

/-- Nothing is told where a pass is cancelled, or is done and has nothing to tell. -/
theorem tells_nothing {e : Except PassError NextLook} (silent : log.told = [])
    (stopped : ∀ fault, e = .error fault → fault = .cancelled)
    (nothing : ∀ look, e = .ok look → r.metadata.deletionTimestamp = none →
      log.Finds r.root.key → r.creations log + r.updates log = 0) : r.Tells e log where
  once := by simp [silent]
  own := by simp [silent]
  warning := by
    simp only [silent, List.not_mem_nil, false_and, exists_false, false_iff]
    rintro ⟨fault, he, hfault⟩
    exact hfault (stopped fault he)
  fault := by simp [silent]
  normal := by
    simp only [silent, List.not_mem_nil, false_and, exists_false, false_iff]
    rintro ⟨alive, ⟨look, he⟩, finds, hsome⟩
    exact absurd (nothing look he alive finds) (Nat.ne_of_gt hsome)
  counts := by simp [silent]

theorem tells_fault {fault : PassError} (failed : fault ≠ .cancelled)
    (told : log.told = [(r.root, Pass.failedEvent fault)]) : r.Tells (.error fault) log where
  once := by simp [told]
  own := by simp [told]
  warning := by simp [told, Pass.failedEvent, failed]
  fault := by simp [told, Pass.failedEvent]
  normal := by simp [told, Pass.failedEvent]
  counts := by simp [told, Pass.failedEvent]

theorem tells_applied (alive : r.metadata.deletionTimestamp = none)
    (finds : log.Finds r.root.key) {tally : Tally} (created : r.creations log = tally.created)
    (updated : r.updates log = tally.updated) (changed : tally.changed = true)
    (told : log.told = [(r.root, Pass.appliedEvent tally)]) (look : NextLook) :
    r.Tells (.ok look) log where
  once := by simp [told]
  own := by simp [told]
  warning := by simp [told, Pass.appliedEvent]
  fault := by simp [told, Pass.appliedEvent]
  normal := by
    have hsome : 0 < tally.created + tally.updated := decide_eq_true_iff.mp changed
    rw [← created, ← updated] at hsome
    simp only [told, List.mem_singleton, exists_eq_left, Pass.appliedEvent, true_iff]
    exact ⟨alive, ⟨look, rfl⟩, finds, hsome⟩
  counts := by simp [told, Pass.appliedEvent, created, updated]

/-- What is told of a pass that is done is what its log says. -/
theorem tells_done (alive : r.metadata.deletionTimestamp = none) {τ : Type} {p : Plan τ}
    (plans : r.Plans p) (concludes : p.Concludes log) (look : NextLook) :
    r.Tells (.ok look) log := by
  obtain ⟨caps, tally, outcome, counts, gone⟩ := concludes
  rw [plans.children, plans.root] at counts
  rw [plans.root] at gone
  have hbuilt : r.built log = (r.children caps).map Child.key := by
    unfold built
    rw [counts.found, List.flatMap_cons, List.flatMap_nil, List.append_nil]
  have hcreated : r.creations log = tally.created := by
    unfold creations
    rw [hbuilt, counts.created]
  have hupdated : r.updates log = tally.updated := by
    unfold updates
    rw [hbuilt, counts.updated]
  by_cases htells : outcome ≠ .rootGone ∧ tally.changed = true
  · refine tells_applied alive (not_not.mp (mt gone.mpr htells.1)) hcreated hupdated htells.2 ?_ look
    rw [counts.told]
    exact if_pos htells
  · refine tells_nothing ?_ nofun fun _ _ _ finds => ?_
    · rw [counts.told]
      exact if_neg htells
    · -- the root was there, so that no child was written
      have hchanged : tally.changed ≠ true := fun h => htells ⟨fun hgone => gone.mp hgone finds, h⟩
      rw [hcreated, hupdated]
      exact Nat.eq_zero_of_not_pos (mt decide_eq_true_iff.mpr hchanged)

end RootResource

/-- A pass that warns of its faults tells what there is to tell when it ends. -/
theorem Pass.Hushed.tells {σ : Type} {S : Scene σ} {p : Pass NextLook} {r : RootResource}
    (h : p.Hushed S [] fun look log => r.Tells (.ok look) log) {s t : σ} {log : Notes}
    {e : Except PassError NextLook}
    (run : (Pass.warned r.root p).Among S.noted (s, []) e (t, log)) : r.Tells e log := by
  have hwarned : (Pass.warned r.root p).Amid S.noted (fun _ _ => True) (s, [])
      (fun look t => r.Tells (.ok look) t.2) fun fault t => r.Tells (.error fault) t.2 := by
    refine (h s).warned ?_ ?_
    · intro t silent
      exact RootResource.tells_nothing silent (fun _ he => (Except.error.inj he).symm) nofun
    · rintro fault t u failed silent ⟨_, same⟩
      refine ⟨trivial, RootResource.tells_fault failed ?_⟩
      show Notes.told (u.2 ++ [_]) = _
      rw [Notes.told_push, same, silent]
      rfl
  have hended := hwarned.among run
  cases e with
  | ok look => exact hended
  | error fault => exact hended

/-! ## §4. Runs -/

/-- The events of a pass over a root of either kind, whether it is being deleted or not.  Whoever
    answers it, and whatever others do before each of its requests, at most one event is told, and
    it is of the root.  A warning with the text of the fault is told where the pass fails and was
    not cancelled.  A normal event is told where the root is not being deleted, the pass is done,
    its last read of the root, with which the write of the status begins, has found it, and some
    child was created or updated; it has the numbers of the calls that did so. -/
theorem RootResource.tells_pass {σ : Type} {S : Scene σ} {settings : Settings} {r : RootResource}
    {s t : σ} {log : Notes} {e : Except PassError NextLook}
    (run : (r.pass settings).Among S.noted (s, []) e (t, log)) : r.Tells e log := by
  cases hdeleted : r.metadata.deletionTimestamp with
  | some time =>
    rw [r.pass_of_deleted settings hdeleted] at run
    refine Pass.Hushed.tells (fun s => ?_) run
    refine (Pass.hushed_release rfl settings r.root r.linked s).mono (fun _ _ h => h) ?_
      fun _ _ h => h
    intro look t silent
    exact tells_nothing silent nofun fun _ _ alive => absurd (hdeleted.symm.trans alive) nofun
  | none =>
    obtain ⟨τ, _, p, plans, hpass⟩ := r.exists_steps settings hdeleted
    rw [hpass] at run
    refine Pass.Hushed.tells (fun s => ?_) run
    cases r.defaulted.validate with
    | error e => exact rfl
    | ok _ =>
      exact (Plan.hushed_steps settings s).mono (fun _ _ h => h)
        (fun look _ h => tells_done hdeleted plans h look) fun _ _ h => h

/-- A world in which others do what they like: they write to the store, inject faults and shut
    the controller down.  Events are told by passes alone. -/
def Scene.unruly : Scene World where
  handle := World.handle
  others v w := w.events = v.events
  still _ := rfl
  further h g := g.trans h

theorem Pass.Among.events {α : Type} {p : Pass α} {s t : World × Notes} {e : Except PassError α}
    (run : p.Among Scene.unruly.noted s e t) {before : List (Root × Event)}
    (start : s.1.events = before ++ s.2.told) : t.1.events = before ++ t.2.told := by
  induction run with
  | done | fail => exact start
  | @ask r _ s t _ _ others _ ih =>
    refine ih ?_
    have ht : t.1.events = before ++ t.2.told := by rw [others.1, start, others.2]
    show (World.handle r t.1).2.events = before ++ Notes.told (t.2 ++ [_])
    rw [Notes.told_push, ← List.append_assoc, ← ht]
    cases r with
    | announce => rfl
    | call | capabilities | isCancelled | clock | record | forget | linkedChildren =>
      exact (List.append_nil _).symm

/-- The events of a world after a pass are those before it and those that the pass has told. -/
theorem World.events_eq_told {α : Type} {p : Pass α} {w v : World} {log : Notes}
    {e : Except PassError α} (run : p.Among Scene.unruly.noted (w, []) e (v, log)) :
    v.events = w.events ++ log.told :=
  run.events (List.append_nil _).symm

/-- Others delete the root. -/
def World.rootless (w : World) (root : Key) : World :=
  { w with store := (w.store.perform (.delete root)).2 }

/-- The end of a pass that nobody disturbs, and what was noted of it. -/
def notedEnd : Except PassError NextLook × World × Notes :=
  (linkedInstall.pass linkedSettings).run Scene.unruly.noted.handle (linkedWorld, [])

/-- The end of a pass whose root is deleted just before the write of its status. -/
def rootlessEnd : Except PassError NextLook × World × Notes :=
  (linkedInstall.pass linkedSettings).runAmid Scene.unruly.noted.handle
    (List.replicate 8 id ++ [fun s => (s.1.rootless linkedInstall.root.key, s.2)])
    (linkedWorld, [])

/-- Both passes create a child; the first one tells of it, and the other one finds its root gone. -/
theorem tells_pass_linkedInstall :
    (linkedInstall.pass linkedSettings).Among Scene.unruly.noted (linkedWorld, []) notedEnd.1
      notedEnd.2 ∧
    linkedInstall.Tells notedEnd.1 notedEnd.2.2 ∧
    linkedInstall.creations notedEnd.2.2 = 1 ∧
    notedEnd.2.1.events = [(linkedInstall.root, Pass.appliedEvent { created := 1 })] ∧
    (linkedInstall.pass linkedSettings).Among Scene.unruly.noted (linkedWorld, []) rootlessEnd.1
      rootlessEnd.2 ∧
    linkedInstall.Tells rootlessEnd.1 rootlessEnd.2.2 ∧
    linkedInstall.creations rootlessEnd.2.2 = 1 ∧ rootlessEnd.2.1.events = [] := by
  have hrun : (linkedInstall.pass linkedSettings).Among Scene.unruly.noted (linkedWorld, [])
      notedEnd.1 notedEnd.2 := Pass.among_run (S := Scene.unruly.noted) _ _
  have hrootless : (linkedInstall.pass linkedSettings).Among Scene.unruly.noted (linkedWorld, [])
      rootlessEnd.1 rootlessEnd.2 := by
    refine Pass.among_runAmid (S := Scene.unruly.noted) ?_ _ _
    -- the others change nothing but the store
    intro move hmove s
    rcases List.mem_append.mp hmove with hmove | hmove
    · rw [List.eq_of_mem_replicate hmove]
      exact ⟨rfl, rfl⟩
    · rw [List.mem_singleton.mp hmove]
      exact ⟨rfl, rfl⟩
  have htold : notedEnd.2.2.told = [(linkedInstall.root, Pass.appliedEvent { created := 1 })] := by
    decide +kernel
  have hsilent : rootlessEnd.2.2.told = [] := by decide +kernel
  exact ⟨hrun, RootResource.tells_pass hrun, by decide +kernel,
    (World.events_eq_told hrun).trans htold, hrootless, RootResource.tells_pass hrootless,
    by decide +kernel, (World.events_eq_told hrootless).trans hsilent⟩

end Converge
