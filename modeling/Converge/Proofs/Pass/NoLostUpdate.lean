/-
  Converge.Proofs.Pass.NoLostUpdate — a pass writes over nothing that it has not read.

  Every write of a pass is computed from the latest read of its key: it creates where that read
  found nothing, and updates with an object made from the one that was found, which keeps its
  version.  As no version is used twice, an update that the store takes replaces that very object.
  A write that the store does not take ends the pass.

  Main statements:
    * `Pass.careful_pass` — every write of a pass follows from its reads.
    * `RootResource.no_lost_update` — whatever others write in between, nothing is written over.
-/
import Converge.Proofs.Amend.InLine
import Converge.Proofs.Pass.Exchanges
import Converge.Proofs.Pass.Footprint
import Converge.Proofs.Store.Answers

namespace Converge

/-! ## §1. Writes that follow from reads -/

/-- What a pass may write back of an object `p` that it read under a key. -/
inductive Revision (key : Key) (p : Object) : Object → Prop
  /-- A child, brought in line. -/
  | amended {c : Child} {o : Object} : c.key = key → c.amend? p = some o → Revision key p o
  /-- A root, held for namespaces. -/
  | held {linked : Roster String} {m : Metadata} :
      Finalizer.hold? p.metadata linked = some m → Revision key p { p with metadata := m }
  /-- A root, let go. -/
  | released : Revision key p { p with metadata := Finalizer.released p.metadata }
  /-- A root, reported on. -/
  | reported (status : Json) :
      Revision key p { p with data := p.data.setMember "status" status }

/-- What is written back carries the version that was read. -/
theorem Revision.version {key : Key} {p o : Object} (h : Revision key p o) :
    o.metadata.resourceVersion = p.metadata.resourceVersion := by
  cases h with
  | amended _ hn =>
    rw [Child.amend?_some hn]
    rfl
  | held hm => exact Finalizer.hold?_resourceVersion hm
  | released => rfl
  | reported status => rfl

/-- A write follows from the latest read of its key. -/
def Heeds (log : List Exchange) : Request → Prop
  | .call (.create key _) => LastRead log key none
  | .call (.update key o) => ∃ p, LastRead log key (some p) ∧ Revision key p o
  | .call (.updateStatus key o) => ∃ p, LastRead log key (some p) ∧ Revision key p o
  | _ => True

/-- No request was refused. -/
def Granted (log : List Exchange) : Prop := ∀ x ∈ log, x.fault? = none

theorem Granted.append {log : List Exchange} (h : Granted log) {x : Exchange}
    (hx : x.fault? = none) : Granted (log ++ [x]) := by
  intro y hy
  rcases List.mem_append.mp hy with hy | hy
  · exact h y hy
  · rw [List.mem_singleton.mp hy]
    exact hx

/-- The request may be made: it follows from what was read, and after a fault nothing is asked for
    but to tell of it. -/
structure Careful (r : Request) (s : Traced) : Prop where
  heeds : Heeds s.log r
  granted : Granted s.log ∨ ∃ root event, r = .announce root event

/-- A fault is what a pass fails with. -/
def Blames (e : PassError) (s : Traced) : Prop :=
  ∀ x ∈ s.log, ∀ f, x.fault? = some f → e = .store f

theorem Blames.of_granted {e : PassError} {s : Traced} (h : Granted s.log) : Blames e s := by
  intro x hx f hf
  rw [h x hx] at hf
  exact absurd hf nofun

/-- Nothing went wrong so far. -/
structure Traced.Clear (s : Traced) : Prop where
  calm : s.world.Calm
  granted : Granted s.log

theorem World.Calm.handle {w : World} (calm : w.Calm) (r : Request) :
    (World.handle r w).2.Calm := by
  cases r with
  | call c =>
    rw [World.handle_call calm]
    exact calm
  | capabilities | isCancelled | clock | record | forget | linkedChildren | announce => exact calm

/-! ## §2. Requests -/

/-- The request goes to the store. -/
def Request.isCall : Request → Bool
  | .call _ => true
  | _ => false

namespace Pass

variable {α : Type} {s : Traced} {done : α → Traced → Prop}

/-- A store call that follows from what was read. -/
theorem careful_call {c : StoreCall} {next : c.Reply → Pass α} (clear : s.Clear)
    (heeds : Heeds s.log (.call c))
    (answered : ∀ (w : World) a t, w.store.perform c = (.ok a, t) →
      Traced.Clear ⟨{ w with store := t }, s.log ++ [⟨.call c, w⟩]⟩ →
      (next a).Amid .traced Careful ⟨{ w with store := t }, s.log ++ [⟨.call c, w⟩]⟩ done Blames) :
    ((call c).bind next).Amid .traced Careful s done Blames := by
  refine amid_traced_call clear.calm (fun _ => ⟨heeds, .inl clear.granted⟩) ?_ ?_
  · intro w a t calm hreply
    refine answered w a t hreply ⟨calm, clear.granted.append ?_⟩
    rw [Exchange.fault?_call calm, hreply]
  · intro w e t calm hreply x hx f hf
    rcases List.mem_append.mp hx with hx | hx
    · rw [clear.granted x hx] at hf
      exact absurd hf nofun
    · rw [List.mem_singleton.mp hx, Exchange.fault?_call calm, hreply] at hf
      injection hf with hf
      rw [hf]

/-- Any other request. -/
theorem careful_request {r : Request} {next : r.Reply → Pass α} (clear : s.Clear)
    (other : r.isCall = false)
    (answered : ∀ w : World, Traced.Clear ⟨(World.handle r w).2, s.log ++ [⟨r, w⟩]⟩ →
      (next (World.handle r w).1).Amid .traced Careful
        ⟨(World.handle r w).2, s.log ++ [⟨r, w⟩]⟩ done Blames) :
    ((request r).bind next).Amid .traced Careful s done Blames := by
  rintro ⟨w, log⟩ ⟨rfl, hcalm, _⟩
  have hfree : Heeds s.log r ∧ Exchange.fault? ⟨r, w⟩ = none := by
    cases r with
    | call c => exact absurd other nofun
    | capabilities | isCancelled | clock | record | forget | linkedChildren | announce =>
      exact ⟨trivial, rfl⟩
  exact ⟨⟨hfree.1, .inl clear.granted⟩,
    answered w ⟨(hcalm clear.calm).handle r, clear.granted.append hfree.2⟩⟩

/-- A read, after which the latest read of the key is known. -/
theorem careful_get {key : Key} {next : Option Object → Pass α} (clear : s.Clear)
    (answered : ∀ o t, t.Clear → LastRead t.log key o →
      (next o).Amid .traced Careful t done Blames) :
    ((call (.get key)).bind next).Amid .traced Careful s done Blames := by
  refine careful_call clear trivial ?_
  intro w o t hreply hclear
  have hread := LastRead.of_get s.log key w
  injection hreply with hreply _
  injection hreply with hreply
  rw [hreply] at hread
  exact answered o _ hclear hread

/-- A write as the last thing that is done. -/
theorem careful_write {c : StoreCall} (clear : s.Clear) (a : α)
    (heeds : Heeds s.log (.call c)) :
    ((call c).bind fun _ => Pass.done a).Amid .traced Careful s (fun _ t => t.Clear) Blames :=
  careful_call clear heeds fun _ _ _ _ hclear => amid_done hclear

/-! ## §3. A pass over a root that stays -/

theorem careful_holdRoot (clear : s.Clear) (root : Root) (linked : Roster String) :
    (holdRoot root linked).Amid .traced Careful s (fun _ t => t.Clear) Blames := by
  refine careful_get clear ?_
  intro stored t hclear hread
  cases stored with
  | none => exact hclear
  | some o =>
    cases hm : Finalizer.hold? o.metadata linked with
    | none =>
      simp only [hm]
      exact hclear
    | some m =>
      simp only [hm]
      exact careful_write hclear true ⟨o, hread, .held hm⟩

theorem careful_holdIfLinked (clear : s.Clear) (settings : Settings) (root : Root)
    (linked : Roster String) :
    (holdIfLinked settings root linked).Amid .traced Careful s (fun _ t => t.Clear) Blames := by
  unfold holdIfLinked
  split
  · exact Amid.bind (careful_holdRoot clear root linked) fun _ _ h => amid_done h
  · exact clear

theorem careful_settle (clear : s.Clear) {c : Child} {stored : Option Object}
    (read : LastRead s.log c.key stored) :
    (settle c stored).Amid .traced Careful s (fun _ t => t.Clear) Blames := by
  cases stored with
  | none => exact careful_write clear ApplyOutcome.created read
  | some cur =>
    unfold settle
    cases hn : c.amend? cur with
    | none =>
      simp only [hn]
      exact clear
    | some next =>
      simp only [hn]
      exact careful_write clear ApplyOutcome.updated ⟨cur, read, .amended rfl hn⟩

theorem careful_apply (clear : s.Clear) (root : Key) (c : Child) :
    (apply root c).Amid .traced Careful s (fun _ t => t.Clear) Blames := by
  refine careful_get clear ?_
  intro stored t hclear hread
  refine Amid.bind (careful_settle hclear hread) ?_
  intro outcome u hu
  exact careful_request hu rfl fun _ hv => amid_done hv

theorem careful_applyAll (clear : s.Clear) (root : Key) (cs : List Child) (tally : Tally) :
    (applyAll root cs tally).Amid .traced Careful s (fun _ t => t.Clear) Blames := by
  induction cs generalizing s tally with
  | nil => exact clear
  | cons c cs ih =>
    refine careful_request clear rfl ?_
    intro w hclear
    show (if w.cancelled = true then .fail .cancelled else (apply root c).bind fun outcome =>
      applyAll root cs (tally.count outcome) : Pass Tally).Amid _ _ _ _ _
    split
    · exact .of_granted hclear.granted
    · refine Amid.bind (careful_apply hclear root c) ?_
      exact fun outcome t ht => ih ht _

theorem careful_observe (clear : s.Clear) (keys : List Key) :
    (observe keys).Amid .traced Careful s (fun _ t => t.Clear) Blames := by
  induction keys generalizing s with
  | nil => exact clear
  | cons key keys ih =>
    refine careful_get clear ?_
    intro stored t hclear _
    exact Amid.bind (ih hclear) fun _ _ h => amid_done h

theorem careful_applyAndObserve (clear : s.Clear) (root : Root) (cs : List Child) :
    (applyAndObserve root cs).Amid .traced Careful s (fun _ t => t.Clear) Blames := by
  refine Amid.bind (careful_applyAll clear root.key cs {}) ?_
  intro tally t ht
  exact Amid.bind (careful_observe ht _) fun _ _ h => amid_done h

theorem careful_writeStatus {τ : Type} [DecidableEq τ] (clear : s.Clear) (form : StatusForm τ)
    (root : Key) (generation : Option Int64) (verdict : Verdict) (now : String) (change : τ → τ) :
    (writeStatus form root generation verdict now change).Amid .traced Careful s
      (fun _ t => t.Clear) Blames := by
  refine careful_get clear ?_
  intro stored t hclear hread
  cases stored with
  | none => exact hclear
  | some o =>
    cases hstatus : form.stored? o.data with
    | none =>
      simp only [hstatus]
      exact .of_granted hclear.granted
    | some status =>
      simp only [hstatus]
      split
      · exact hclear
      · exact careful_write hclear StatusWrite.written ⟨o, hread, .reported _⟩

theorem careful_finish (clear : s.Clear) (settings : Settings) (root : Root) (tally : Tally)
    (outcome : StatusWrite) :
    (finish settings root tally outcome).Amid .traced Careful s (fun _ t => t.Clear) Blames := by
  by_cases gone : outcome = .rootGone
  · rw [gone]
    exact careful_request clear rfl fun _ hclear => amid_done hclear
  · rw [finish_of_there settings root tally gone]
    split
    · exact careful_request clear rfl fun _ hclear => amid_done hclear
    · exact clear

theorem careful_goOn {τ : Type} [DecidableEq τ] (clear : s.Clear) (settings : Settings)
    (p : Plan τ) :
    (p.goOn settings).Amid .traced Careful s (fun _ t => t.Clear) Blames := by
  refine careful_request clear rfl fun w hclear => ?_
  refine Amid.bind (careful_applyAndObserve hclear p.root _) ?_
  intro seen t ht
  refine careful_request ht rfl fun w hclear => ?_
  refine Amid.bind (careful_writeStatus hclear p.form p.root.key p.generation _ _ _) ?_
  exact fun outcome u hu => careful_finish hu settings p.root seen.1 outcome

/-! ## §4. A pass over a root that goes -/

/-- All that was known of the latest reads is still so. -/
def Remembers (log log' : List Exchange) : Prop :=
  ∀ key o, LastRead log key o → LastRead log' key o

theorem Remembers.trans {log log' log'' : List Exchange} (h : Remembers log log')
    (g : Remembers log' log'') : Remembers log log'' :=
  fun key o hread => g key o (h key o hread)

/-- A call that is no read of a key. -/
theorem careful_aside {c : StoreCall} {next : c.Reply → Pass α} (clear : s.Clear)
    (heeds : Heeds s.log (.call c)) (other : c.callKind ≠ .get)
    (answered : ∀ a t, t.Clear → Remembers s.log t.log →
      (next a).Amid .traced Careful t done Blames) :
    ((call c).bind next).Amid .traced Careful s done Blames := by
  refine careful_call clear heeds fun w a t _ hclear => answered a _ hclear ?_
  intro key o hread
  refine hread.later ?_
  intro h
  injection h with h
  exact other (congrArg StoreCall.callKind h)

theorem careful_collectLinked (clear : s.Clear) (root : Root) (places : List (String × Kind))
    (found : Roster Key) :
    (collectLinked root places found).Amid .traced Careful s
      (fun _ t => t.Clear ∧ Remembers s.log t.log) Blames := by
  induction places generalizing s found with
  | nil => exact ⟨clear, fun _ _ h => h⟩
  | cons place places ih =>
    obtain ⟨ns, kind⟩ := place
    show (((call (.list kind ns root.linkSelector)).bind fun objects =>
      Pass.done (objects.map fun o => (⟨kind, ns, o.metadata.name.getD ""⟩ : Key))).bind
        fun keys => collectLinked root places (Roster.union found keys)).Amid _ _ _ _ _
    rw [bind_assoc]
    refine careful_aside clear trivial nofun ?_
    intro objects t hclear hsame
    refine (ih hclear _).mono (fun _ _ h => h) ?_ fun _ _ h => h
    exact fun _ u hu => ⟨hu.1, hsame.trans hu.2⟩

theorem careful_deleteAll (clear : s.Clear) (keys : List Key) :
    (deleteAll keys).Amid .traced Careful s
      (fun _ t => t.Clear ∧ Remembers s.log t.log) Blames := by
  induction keys generalizing s with
  | nil => exact ⟨clear, fun _ _ h => h⟩
  | cons key keys ih =>
    refine careful_aside clear trivial nofun ?_
    intro _ t hclear hsame
    refine (ih hclear).mono (fun _ _ h => h) ?_ fun _ _ h => h
    exact fun _ u hu => ⟨hu.1, hsame.trans hu.2⟩

theorem careful_deleteLinked (clear : s.Clear) (root : Root) (metadata : Metadata)
    (known : List Key) (scope : Roster String) (caps : Capabilities) :
    (deleteLinked root metadata known scope caps).Amid .traced Careful s
      (fun _ t => t.Clear ∧ Remembers s.log t.log) Blames := by
  unfold deleteLinked
  refine Amid.bind (careful_collectLinked clear root _ _) ?_
  intro doomed t ht
  refine Amid.bind (careful_deleteAll ht.1 doomed) ?_
  exact fun _ u hu => ⟨hu.1, ht.2.trans hu.2⟩

theorem careful_releaseRoot (clear : s.Clear) (root : Root) (scope : Option (Roster String))
    (caps : Capabilities) :
    (releaseRoot root scope caps).Amid .traced Careful s (fun _ t => t.Clear) Blames := by
  refine careful_request clear rfl fun w hclear => ?_
  refine careful_request hclear rfl fun w hclear => ?_
  refine careful_get hclear ?_
  intro stored t hclear hread
  cases stored with
  | none => exact hclear
  | some o =>
    -- the root is let go as it was read, before its linked children were deleted
    have hrelease : ∀ (u : Traced) (n : Nat), u.Clear → LastRead u.log root.key (some o) →
        ((call (.update root.key
          { o with metadata := Finalizer.released o.metadata })).bind fun _ =>
            Pass.done n).Amid .traced Careful u (fun _ t => t.Clear) Blames :=
      fun u n hu hread => careful_write hu n ⟨o, hread, .released⟩
    show (if Finalizer.holds o.metadata then _ else _ : Pass Nat).Amid _ _ _ _ _
    split
    · cases scope with
      | none => exact hrelease t 0 hclear hread
      | some scope =>
        refine Amid.bind (careful_deleteLinked hclear root o.metadata _ scope caps) ?_
        exact fun deleted u hu => hrelease u deleted hu.1 (hu.2 _ _ hread)
    · exact hclear

theorem careful_release (clear : s.Clear) (settings : Settings) (root : Root)
    (namespaces : Roster String) :
    (release settings root namespaces).Amid .traced Careful s (fun _ t => t.Clear) Blames := by
  refine careful_request clear rfl fun w hclear => ?_
  exact Amid.bind (careful_releaseRoot hclear root _ _) fun _ _ h => amid_done h

/-! ## §5. The whole -/

theorem careful_check (clear : s.Clear) (check : Except SpecError Unit) :
    (ofCheck check).Amid .traced Careful s (fun _ t => t.Clear) Blames := by
  cases check with
  | ok _ => exact clear
  | error e => exact .of_granted clear.granted

theorem careful_install (clear : s.Clear) (settings : Settings) (root : Root)
    (r : Install.Resource) :
    (Install.steps settings root r).Amid .traced Careful s (fun _ t => t.Clear) Blames := by
  unfold Install.steps
  split
  · exact careful_release clear settings root _
  · refine Amid.bind (careful_check clear _) ?_
    intro _ t ht
    refine Amid.bind (careful_holdIfLinked ht settings root _) ?_
    exact fun _ u hu => careful_goOn hu settings (Install.plan root r)

theorem careful_simulator (clear : s.Clear) (settings : Settings) (root : Root)
    (r : Simulator.Resource) :
    (Simulator.steps settings root r).Amid .traced Careful s (fun _ t => t.Clear) Blames := by
  unfold Simulator.steps
  split
  · exact careful_release clear settings root _
  · refine Amid.bind (careful_check clear _) ?_
    exact fun _ u hu => careful_goOn hu settings (Simulator.plan root r)

/-- A pass that tells of its fault adds no other. -/
theorem careful_warned {p : Pass α} {done : α → Traced → Prop} {root : Root}
    (h : p.Amid .traced Careful s done Blames) :
    (warned root p).Amid .traced Careful s done Blames := by
  refine h.warned (fun _ h => h) ?_
  rintro e t ⟨w, log⟩ _ hblames ⟨rfl, _, _⟩
  refine ⟨⟨trivial, .inr ⟨_, _, rfl⟩⟩, ?_⟩
  intro x hx f hf
  rcases List.mem_append.mp hx with hx | hx
  · exact hblames x hx f hf
  · rw [List.mem_singleton.mp hx] at hf
    exact absurd hf nofun

/-- Every write of a pass over a root of either kind follows from its reads, and a fault ends it. -/
theorem careful_pass (clear : s.Clear) (settings : Settings) (r : RootResource) :
    (r.pass settings).Amid .traced Careful s (fun _ t => t.Clear) Blames := by
  cases r with
  | install i => exact careful_warned (careful_install clear settings _ i)
  | simulator i => exact careful_warned (careful_simulator clear settings _ i)

end Pass

/-! ## §6. Runs -/

/-- The exchanges so far follow each other on one store, which was written from the start. -/
structure Traced.Orderly (s : Traced) : Prop where
  calm : s.world.Calm
  made : Store.Writes {} s.world.store
  past : ∀ x ∈ s.log, Store.Writes {} x.store ∧ x.store.Writes s.world.store

/-- The exchange was careful, and is later than those before it. -/
structure Exchange.InTurn (x : Exchange) (earlier : List Exchange) : Prop where
  calm : x.world.Calm
  careful : Careful x.request ⟨x.world, earlier⟩
  past : ∀ y ∈ earlier, Store.Writes {} y.store ∧ y.store.Writes x.store

theorem World.writes_handle {w : World} (calm : w.Calm) (r : Request) :
    w.store.Writes (World.handle r w).2.store := by
  cases r with
  | call c =>
    rw [World.handle_call calm]
    exact .perform _ c
  | capabilities | isCancelled | clock | record | forget | linkedChildren | announce =>
    exact .refl _

theorem Traced.Orderly.others : Scene.traced.Keeps Traced.Orderly := by
  rintro s ⟨w, log⟩ h ⟨rfl, hcalm, hwrites⟩
  exact ⟨hcalm h.calm, h.made.trans hwrites,
    fun x hx => ⟨(h.past x hx).1, (h.past x hx).2.trans hwrites⟩⟩

theorem Traced.Orderly.step (r : Request) (s : Traced) (h : s.Orderly) :
    (Scene.traced.handle r s).2.Orderly := by
  have hwrites := World.writes_handle h.calm r
  refine ⟨h.calm.handle r, h.made.trans hwrites, ?_⟩
  intro x hx
  rcases List.mem_append.mp hx with hx | hx
  · exact ⟨(h.past x hx).1, (h.past x hx).2.trans hwrites⟩
  · rw [List.mem_singleton.mp hx]
    exact ⟨h.made, hwrites⟩

/-- The store refuses the request and stays as it is.  The pass fails with that fault, and all it
    still does is to tell of it. -/
structure Exchange.Refused {α : Type} (x : Exchange) (key : Key) (later : List Exchange)
    (e : Except PassError α) : Prop where
  fault : ∃ f, Store.Declines key f ∧ x.fault? = some f ∧ e = .error (.store f)
  unchanged : x.storeAfter = x.store
  last : ∀ y ∈ later, y.Announces

/-- What holds of each write in a run of a pass. -/
structure Exchange.Sole {α : Type} (x : Exchange) (earlier later : List Exchange)
    (e : Except PassError α) : Prop where
  /-- What is created was not there. -/
  create : ∀ key o, x.request = .call (.create key o) →
    (x.fault? = none ∧ Table.get? x.store.objects key = none) ∨ x.Refused key later e
  /-- What is updated is the very object that was read last, and that the update was made from. -/
  update : ∀ key o, x.request = .call (.update key o) ∨ x.request = .call (.updateStatus key o) →
    (x.fault? = none ∧ ∃ p, LastRead earlier key (some p) ∧ Revision key p o ∧
      Table.get? x.store.objects key = some p) ∨ x.Refused key later e

section Refusals

variable {α : Type} {s : Traced} {e : Except PassError α} {earlier later : List Exchange}
  {x : Exchange} {f : StoreError}

/-- After a fault nothing is asked for but to tell of it. -/
theorem Traced.Obeys.announces (h : s.Obeys Exchange.InTurn)
    (place : s.log = earlier ++ x :: later) (fault : x.fault? = some f) :
    ∀ y ∈ later, y.Announces := by
  intro y hy
  -- a later exchange has the refused one among those before it
  obtain ⟨before, after, rfl⟩ := List.append_of_mem hy
  rw [← List.cons_append, ← List.append_assoc] at place
  rcases (h _ y after place).careful.granted with hgranted | hannounce
  · have hx := hgranted x (by simp)
    rw [hx] at fault
    exact absurd fault nofun
  · exact hannounce

/-- And the pass fails with that fault. -/
theorem Pass.Ended.blames (h : Pass.Ended (fun _ t => t.Clear) Blames e s) (mem : x ∈ s.log)
    (fault : x.fault? = some f) : e = .error (.store f) := by
  cases e with
  | ok a =>
    have hclear : s.Clear := h
    rw [hclear.granted x mem] at fault
    exact absurd fault nofun
  | error e =>
    have hblames : Blames e s := h
    rw [hblames x mem f fault]

theorem Traced.Obeys.refused (h : s.Obeys Exchange.InTurn)
    (ended : Pass.Ended (fun _ t => t.Clear) Blames e s) {w : World} {c : StoreCall}
    (place : s.log = earlier ++ ⟨.call c, w⟩ :: later) {key : Key}
    (declines : Store.Declines key f) (answer : w.store.perform c = (.error f, w.store)) :
    Exchange.Refused ⟨.call c, w⟩ key later e := by
  have hcalm : w.Calm := (h _ _ _ place).calm
  have hfault : Exchange.fault? ⟨.call c, w⟩ = some f := by
    rw [Exchange.fault?_call hcalm, answer]
  have hin : (⟨.call c, w⟩ : Exchange) ∈ s.log := by
    rw [place]
    simp
  refine ⟨⟨f, declines, hfault, ended.blames hin hfault⟩, ?_, h.announces place hfault⟩
  rw [Exchange.storeAfter_call hcalm, answer]
  rfl

end Refusals

/-- A store is written by a pass over a root of either kind, which stays or is being deleted, and
    by others before each request of the pass, who may also delete what it reads and create it
    again.  Every creation of the pass that succeeds finds nothing under its key, every update that
    succeeds replaces the object that the pass read last under the key and made the new one from,
    and any other write changes nothing and ends the pass with its fault. -/
theorem RootResource.no_lost_update {r : RootResource} {settings : Settings} {w w' : World}
    (calm : w.Calm) (made : Store.Writes {} w.store) {log : List Exchange}
    {e : Except PassError NextLook}
    (run : (r.pass settings).Among .traced ⟨w, []⟩ e ⟨w', log⟩) {earlier later : List Exchange}
    {x : Exchange} (place : log = earlier ++ x :: later) : x.Sole earlier later e := by
  have hclear : Traced.Clear ⟨w, []⟩ := ⟨calm, fun _ h => absurd h List.not_mem_nil⟩
  have hstart : Traced.Orderly ⟨w, []⟩ := ⟨calm, made, fun _ h => absurd h List.not_mem_nil⟩
  -- every request follows from the reads, and every exchange is later than those before it
  have hpass := Pass.careful_pass hclear settings r
  have hended := hpass.among run
  have hturns : Traced.Obeys Exchange.InTurn ⟨w', log⟩ :=
    (hpass.keep Traced.Orderly.others (fun r t h _ => h.step r t) hstart).obeys
      (fun _ _ h => ⟨h.1.calm, h.2, h.1.past⟩) run
  obtain ⟨hcalm, hcareful, hpast⟩ := hturns earlier x later place
  obtain ⟨request, v⟩ := x
  refine ⟨?_, ?_⟩
  · rintro key o rfl
    rcases v.store.perform_create_cases key o with ⟨hnone, hok⟩ | herror
    · refine .inl ⟨?_, hnone⟩
      rw [Exchange.fault?_call hcalm, hok]
    · exact .inr (hturns.refused hended place (.inl rfl) herror)
  · intro key o hrequest
    obtain ⟨c, hwrite, rfl, p, hread, hrevision⟩ : ∃ c,
        (c = .update key o ∨ c = .updateStatus key o) ∧ request = .call c ∧
          ∃ p, LastRead earlier key (some p) ∧ Revision key p o := by
      rcases hrequest with rfl | rfl
      · exact ⟨_, .inl rfl, rfl, hcareful.heeds⟩
      · exact ⟨_, .inr rfl, rfl, hcareful.heeds⟩
    rcases v.store.perform_revise_cases hwrite with ⟨q, hq, hversion, _, t, hok⟩ | ⟨f, hf, herror⟩
    · refine .inl ⟨?_, p, hread, hrevision, ?_⟩
      · rw [Exchange.fault?_call hcalm, hok]
      · -- the stored object carries the version that was read, so it is the object that was read
        obtain ⟨front, u, back, rfl, hp, _⟩ := hread
        obtain ⟨hmade, hsince⟩ := hpast ⟨.call (.get key), u⟩ (by simp)
        have hsame := hmade.same hsince hp hq (hversion.trans hrevision.version)
        rw [← hsame]
        exact hq
    · exact .inr (hturns.refused hended place hf herror)

/-- The object of a SchedulerInstall. -/
def installObject : Object where
  metadata := { name := some "pool", ns := some "default", uid := some "u-1" }
  data := .obj []

/-- That object, placed in an empty store. -/
def seededWorld : World where
  store := ({} : Store).seed linkedInstall.root.key installObject

/-- Another actor touches that root after a pass has read it. -/
def touchedBetween : List (Traced → Traced) :=
  [id, fun s => { s with world := { s.world with
    store := s.world.store.modify linkedInstall.root.key Disturbance.touched } }]

/-- How the pass ends then. -/
def touchedEnd : Except PassError NextLook × Traced :=
  (linkedInstall.pass linkedSettings).runAmid Scene.traced.handle touchedBetween ⟨seededWorld, []⟩

theorem no_lost_update_touchedBetween :
    ∃ w' read write told,
      (linkedInstall.pass linkedSettings).Among .traced ⟨seededWorld, []⟩
        (.error (.store (.conflict linkedInstall.root.key))) ⟨w', [read, write, told]⟩ ∧
      write.Sole [read] [told] (.error (.store (.conflict linkedInstall.root.key)) :
        Except PassError NextLook) := by
  have hallowed : ∀ m ∈ touchedBetween, ∀ s, Scene.traced.others s (m s) := by
    intro m hm s
    rcases List.mem_cons.mp hm with rfl | hm
    · exact Scene.traced.still s
    · rw [List.mem_singleton.mp hm]
      exact ⟨rfl, id, .single (.modify _ _ _)⟩
  have hrun : (linkedInstall.pass linkedSettings).Among .traced ⟨seededWorld, []⟩ touchedEnd.1
    ⟨touchedEnd.2.world, touchedEnd.2.log⟩ := Pass.among_runAmid hallowed _ _
  have hend : touchedEnd.1 = .error (.store (.conflict linkedInstall.root.key)) := by
    decide +kernel
  have hlength : touchedEnd.2.log.length = 3 := by decide +kernel
  obtain ⟨read, write, told, hlog⟩ := List.length_eq_three.mp hlength
  rw [hend, hlog] at hrun
  have hcalm : seededWorld.Calm := rfl
  have hmade : Store.Writes {} seededWorld.store :=
    .single (.seed {} linkedInstall.root.key installObject)
  have place : [read, write, told] = [read] ++ write :: [told] := rfl
  exact ⟨_, read, write, told, hrun, RootResource.no_lost_update hcalm hmade hrun place⟩

end Converge
