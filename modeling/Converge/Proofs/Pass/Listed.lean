/-
  Converge.Proofs.Pass.Listed — what a ledger lists after passes over any roots.

  A controller begins passes over as many roots as it likes, over root objects of either kind as
  they are at the time, and goes on with them request by request in any order.  Each pass may fail
  at any call, be cancelled, or be given up wherever it is.  Entries of the ledger grow over many
  passes, and are dropped as a whole by two kinds of pass; a deletion trusts what is left.

  Main statements:
    * `Errand.Regular.applied_iff`, `Errand.Regular.drops_iff` — what a pass has applied and
      dropped is what it has told the ledger.
    * `Controller.Consistent.goOn` — one request keeps the ledger in line with all passes.
    * `Controller.lists_of_reached` — the ledger lists for each root what passes have applied since
      it was last dropped.
-/
import Converge.Proofs.Children.Links
import Converge.Proofs.Pass.Gated
import Converge.Proofs.Pass.Independence
import Converge.Proofs.Pass.Logs
import Mathlib.Logic.Function.Basic

namespace Converge

/-! ## §1. Passes that were begun -/

/-- A pass that was begun over a root object: its log so far, and the rest of it. -/
structure Errand where
  resource : RootResource
  log : Notes
  rest : Pass NextLook

namespace Errand

def root (e : Errand) : Key := e.resource.root.key

/-- The root is being deleted. -/
def Leaving (e : Errand) : Prop := e.resource.metadata.deletionTimestamp ≠ none

/-- The apply of a child under the key was completed. -/
def Applied (e : Errand) (key : Key) : Prop :=
  ∃ owned, e.log.Books e.root e.resource.children key owned

/-- The pass has dropped what was listed for its root: the root is being deleted, and the pass has
    let go of it; or the root is not, and when the pass came to write its status it was gone. -/
def Drops (e : Errand) : Prop :=
  (e.Leaving ∧ e.log.Forgets e.root) ∨
    (¬ e.Leaving ∧ (∃ look, e.rest = .done look) ∧ ¬ e.log.Finds e.root)

/-- The next request is answered. -/
def answered (e : Errand) (q : Request) (next : q.Reply → Pass NextLook) (reply : q.Reply) :
    Errand :=
  { e with log := e.log ++ [⟨q, reply⟩], rest := next reply }

@[simp] theorem answered_root (e : Errand) (q : Request) (next : q.Reply → Pass NextLook)
    (reply : q.Reply) : (e.answered q next reply).root = e.root := rfl

@[simp] theorem answered_log (e : Errand) (q : Request) (next : q.Reply → Pass NextLook)
    (reply : q.Reply) : (e.answered q next reply).log = e.log ++ [⟨q, reply⟩] := rfl

/-- The pass has come so far by its own steps. -/
def Regular (e : Errand) : Prop := ∃ settings, (e.resource.pass settings).Follows e.log e.rest

/-- The key is that of a child that one of the passes has applied, and that neither it nor a later
    one has dropped; the latest pass comes first. -/
def Listed : List Errand → Key → Prop
  | [], _ => False
  | e :: earlier, key => ¬ e.Drops ∧ (e.Applied key ∨ Listed earlier key)

section Regular

variable {e : Errand} {key : Key}

theorem Regular.marks (h : e.Regular) : e.resource.Marks e.log e.rest := by
  obtain ⟨settings, follows⟩ := h
  exact RootResource.marks_pass follows

theorem Regular.answered (h : e.Regular) {q : Request} {next : q.Reply → Pass NextLook}
    (rest : e.rest = .ask q next) (reply : q.Reply) : (e.answered q next reply).Regular := by
  obtain ⟨settings, follows⟩ := h
  rw [rest] at follows
  exact ⟨settings, follows.push reply⟩

/-- What was applied is what the ledger was told of. -/
theorem Regular.applied_iff (h : e.Regular) :
    e.Applied key ↔ ∃ owned, e.log.Records e.root key owned := by
  constructor
  · rintro ⟨_, _, c, _, _, applies, rfl, _⟩
    exact ⟨_, applies.records⟩
  · rintro ⟨owned, hrecords⟩
    exact ⟨owned, (h.marks.records hrecords).2.2⟩

/-- The ledger was told to drop the root where the pass has dropped it. -/
theorem Regular.drops_iff (h : e.Regular) : e.Drops ↔ e.log.Forgets e.root := by
  by_cases leaving : e.Leaving
  · simp [Drops, leaving]
  · rw [show e.Drops ↔ _ from or_iff_right fun hdrop => leaving hdrop.1, and_iff_right leaving]
    exact (h.marks.gone (not_not.mp leaving)).symm

/-- Children are recorded as owned where they live with the root. -/
theorem Regular.home (h : e.Regular) {owned : Bool} (records : e.log.Records e.root key owned) :
    owned = decide (key.ns = e.root.ns) := by
  obtain ⟨caps, c, _, child, _, rfl, rfl⟩ := (h.marks.records records).2.2
  exact (RootSpec.children_hang e.resource.root caps e.resource.defaulted c child).isOwned

/-- Nothing was dropped in a pass that is about to record a child. -/
theorem Regular.keeps (h : e.Regular) (leaving : ¬ e.Leaving) {q : Request}
    {next : q.Reply → Pass NextLook} (rest : e.rest = .ask q next) : ¬ e.log.Forgets e.root := by
  intro hforgets
  obtain ⟨⟨look, hdone⟩, _⟩ := (h.marks.gone (not_not.mp leaving)).mp hforgets
  exact absurd (rest.symm.trans hdone) nofun

theorem Regular.listed_iff (h : e.Regular) {earlier : List Errand} :
    Listed (e :: earlier) key ↔ ¬ e.log.Forgets e.root ∧
      ((∃ owned, e.log.Records e.root key owned) ∨ Listed earlier key) := by
  rw [Listed, h.drops_iff, h.applied_iff]

end Regular

end Errand

/-! ## §2. The entry of one root -/

/-- An entry of a ledger goes by the passes over its root: it lists what they have applied and not
    dropped, each key once. -/
structure Ledger.GoesBy (entry : Table Key Bool) (root : Key) (passes : List Errand) : Prop where
  once : (Table.keys entry).Nodup
  listed : ∀ key owned, Table.get? entry key = some owned ↔
    Errand.Listed passes key ∧ owned = decide (key.ns = root.ns)

namespace Errand

variable {e : Errand} {earlier : List Errand} {entry : Table Key Bool} {q : Request}
  {next : q.Reply → Pass NextLook}

/-- A pass tells the ledger of its own root only. -/
theorem Regular.concerns (h : e.Regular) (rest : e.rest = .ask q next) : q.Concerns e.root := by
  cases q with
  | record r child owned =>
    have hrecords : (e.answered _ next ()).log.Records r child owned :=
      Notes.records_record.mpr (.inr ⟨rfl, rfl, rfl⟩)
    exact ((h.answered rest ()).marks.records hrecords).1
  | forget r => exact (h.answered rest ()).marks.own (Notes.forgets_forget.mpr (.inr rfl))
  | call | capabilities | isCancelled | clock | linkedChildren | announce => trivial

/-- Neither the log nor the ledger says anything new. -/
theorem Regular.goesBy_aside (h : e.Regular) (goes : Ledger.GoesBy entry e.root (e :: earlier))
    (rest : e.rest = .ask q next) (aside : q.Aside) (reply : q.Reply) :
    Ledger.GoesBy entry e.root (e.answered q next reply :: earlier) := by
  have hnext := h.answered rest reply
  have hsaid : ∀ key, Listed (e.answered q next reply :: earlier) key ↔
      Listed (e :: earlier) key := by
    intro key
    rw [h.listed_iff, hnext.listed_iff]
    refine and_congr (not_congr (Notes.forgets_aside aside)) (or_congr_left ?_)
    exact exists_congr fun owned => Notes.records_aside aside
  refine ⟨goes.once, fun key owned => ?_⟩
  rw [goes.listed, hsaid]

/-- One more child is listed, or listed again. -/
theorem Regular.goesBy_record (h : e.Regular) (goes : Ledger.GoesBy entry e.root (e :: earlier))
    {child : Key} {owned : Bool} {after : Unit → Pass NextLook}
    (rest : e.rest = .ask (.record e.root child owned) after) :
    Ledger.GoesBy (Table.insert entry child owned) e.root
      (e.answered (.record e.root child owned) after () :: earlier) := by
  have hnext := h.answered rest ()
  have hrecords : (e.answered (.record e.root child owned) after ()).log.Records e.root child
      owned := Notes.records_record.mpr (.inr ⟨rfl, rfl, rfl⟩)
  -- a root whose children are recorded stays, and the pass over it is not done
  have hkeeps : ¬ e.log.Forgets e.root :=
    h.keeps (not_not.mpr (hnext.marks.records hrecords).2.1) rest
  have hsaid : ∀ key, Listed (e.answered (.record e.root child owned) after () :: earlier) key ↔
      key = child ∨ Listed (e :: earlier) key := by
    intro key
    rw [h.listed_iff, hnext.listed_iff, answered_log, answered_root, and_iff_right hkeeps,
      and_iff_right (mt Notes.forgets_record.mp hkeeps), ← or_assoc]
    refine or_congr_left ?_
    simp [Notes.records_record, exists_or, or_comm]
  refine ⟨Table.nodup_insert goes.once child owned, fun key o => ?_⟩
  rw [hsaid, Table.get?_insert]
  by_cases hkey : child = key
  · -- whatever it was marked as before, its namespace decides
    subst hkey
    rw [if_pos rfl, Option.some.injEq, hnext.home hrecords]
    exact ⟨fun ho => ⟨.inl rfl, ho.symm⟩, fun ho => ho.2.symm⟩
  · rw [if_neg hkey, goes.listed, or_iff_right (Ne.symm hkey)]

/-- Nothing is listed any more. -/
theorem Regular.goesBy_forget (h : e.Regular) {after : Unit → Pass NextLook}
    (rest : e.rest = .ask (.forget e.root) after) :
    Ledger.GoesBy [] e.root (e.answered (.forget e.root) after () :: earlier) := by
  have hnext := h.answered rest ()
  refine ⟨List.nodup_nil, fun key owned => ?_⟩
  rw [hnext.listed_iff]
  exact iff_of_false nofun fun hlisted => hlisted.1.1 (Notes.forgets_forget.mpr (.inr rfl))

/-- A pass goes on by one request, and the ledger goes by it. -/
theorem Regular.goesBy (h : e.Regular) {w : World}
    (goes : Ledger.GoesBy (w.ledger.children e.root) e.root (e :: earlier))
    (rest : e.rest = .ask q next) :
    Ledger.GoesBy ((World.handle q w).2.ledger.children e.root) e.root
      (e.answered q next (World.handle q w).1 :: earlier) := by
  have own := h.concerns rest
  cases q with
  | call | capabilities | isCancelled | clock | linkedChildren | announce =>
    exact h.goesBy_aside goes rest trivial _
  | record r child owned =>
    obtain rfl : r = e.root := own
    have hchildren := w.ledger.children_record e.root child e.root owned
    rw [if_pos rfl] at hchildren
    show Ledger.GoesBy ((w.ledger.record e.root child owned).children e.root) _ _
    rw [hchildren]
    exact h.goesBy_record goes rest
  | forget r =>
    obtain rfl : r = e.root := own
    have hchildren := w.ledger.children_forget e.root e.root
    rw [if_pos rfl] at hchildren
    show Ledger.GoesBy ((w.ledger.forget e.root).children e.root) _ _
    rw [hchildren]
    exact h.goesBy_forget rest

end Errand

/-! ## §3. All roots -/

/-- A controller in its world, with the passes that it has begun over each root.  The latest pass
    comes first; there is one pass over a root at a time, and those before it have ended or are
    given up where they are. -/
structure Controller where
  world : World
  passes : Key → List Errand

namespace Controller

/-- A pass over a root object begins. -/
def start (c : Controller) (settings : Settings) (r : RootResource) : Controller where
  world := c.world
  passes := Function.update c.passes r.root.key
    (⟨r, [], r.pass settings⟩ :: c.passes r.root.key)

/-- A request of the latest pass over a root is answered; the others are earlier. -/
def answer (c : Controller) (e : Errand) (earlier : List Errand) (q : Request)
    (next : q.Reply → Pass NextLook) : Controller where
  world := (World.handle q c.world).2
  passes := Function.update c.passes e.root
    (e.answered q next (World.handle q c.world).1 :: earlier)

/-- The latest pass over a root makes its next request, unless it has ended. -/
def goOn (c : Controller) (root : Key) : Controller :=
  match c.passes root with
  | [] => c
  | e :: earlier => match e.rest with
    | .done _ | .fail _ => c
    | .ask q next => c.answer e earlier q next

/-- The states that a controller gets into.  Others do to its world what they like, but for the
    ledger: they write to the store, let calls fail and shut the controller down. -/
inductive Reached : Controller → Prop
  | fresh (w : World) : w.ledger = [] → Reached ⟨w, fun _ => []⟩
  | others {c : Controller} (w : World) : Reached c → w.ledger = c.world.ledger →
      Reached { c with world := w }
  | start {c : Controller} (settings : Settings) (r : RootResource) : Reached c →
      Reached (c.start settings r)
  | goOn {c : Controller} (root : Key) : Reached c → Reached (c.goOn root)

variable {c : Controller}

/-- The controller stays as it is, or a request is answered. -/
theorem goOn_cases (c : Controller) (root : Key) : c.goOn root = c ∨
    ∃ e earlier q next, c.passes root = e :: earlier ∧ e.rest = .ask q next ∧
      c.goOn root = c.answer e earlier q next := by
  unfold goOn
  split
  · exact .inl rfl
  · rename_i e earlier hpasses
    cases hrest : e.rest with
    | done | fail => exact .inl rfl
    | ask q next => exact .inr ⟨e, earlier, q, next, hpasses, hrest, rfl⟩

/-- The passes over each root are passes over it that come from its steps, and the ledger goes by
    them. -/
structure Consistent (c : Controller) : Prop where
  own : ∀ root, ∀ e ∈ c.passes root, e.root = root ∧ e.Regular
  goes : ∀ root, Ledger.GoesBy (c.world.ledger.children root) root (c.passes root)

theorem consistent_fresh {w : World} (empty : w.ledger = []) :
    Consistent ⟨w, fun _ => []⟩ where
  own root e he := absurd he List.not_mem_nil
  goes root := by
    rw [empty]
    exact ⟨List.nodup_nil, fun key owned => iff_of_false nofun fun h => h.1⟩

/-- Passes over one root do what they should, and those over other roots stay as they are. -/
theorem Consistent.update (h : c.Consistent) {w : World} {root : Key} {passes : List Errand}
    (own : ∀ e ∈ passes, e.root = root ∧ e.Regular)
    (goes : Ledger.GoesBy (w.ledger.children root) root passes)
    (others : ∀ other, root ≠ other →
      Table.get? w.ledger other = Table.get? c.world.ledger other) :
    Consistent ⟨w, Function.update c.passes root passes⟩ := by
  refine ⟨fun other => ?own, fun other => ?goes⟩
  case own =>
    by_cases hother : other = root
    · subst hother
      simpa only [Function.update_self] using own
    · simpa only [Function.update_of_ne hother] using h.own other
  case goes =>
    by_cases hother : other = root
    · subst hother
      simpa only [Function.update_self] using goes
    · rw [Ledger.children_congr (others other (Ne.symm hother))]
      simpa only [Function.update_of_ne hother] using h.goes other

/-- Nothing is listed and nothing dropped by a pass that has only begun. -/
theorem Consistent.start (h : c.Consistent) (settings : Settings) (r : RootResource) :
    (c.start settings r).Consistent := by
  have hregular : Errand.Regular ⟨r, [], r.pass settings⟩ := ⟨settings, .here _⟩
  have hgoes := h.goes r.root.key
  refine h.update (List.forall_mem_cons.mpr ⟨⟨rfl, hregular⟩, h.own _⟩)
    ⟨hgoes.once, fun key owned => ?_⟩ fun _ _ => rfl
  rw [hgoes.listed, hregular.listed_iff]
  simp [Notes.Forgets, Notes.Records]

/-- One request of a pass over a root changes what is listed for it as the pass says, and nothing
    that is listed for another root. -/
theorem Consistent.goOn (h : c.Consistent) (root : Key) : (c.goOn root).Consistent := by
  obtain hsame | ⟨e, earlier, q, next, hpasses, hrest, hstep⟩ := c.goOn_cases root
  · rwa [hsame]
  have hown := h.own root
  have hgoes := h.goes root
  rw [hpasses] at hown hgoes
  -- earlier passes stay as they are, and go on counting for what is listed
  obtain ⟨⟨rfl, hregular⟩, hearlier⟩ := List.forall_mem_cons.mp hown
  rw [hstep]
  exact h.update (List.forall_mem_cons.mpr ⟨⟨rfl, hregular.answered hrest _⟩, hearlier⟩)
    (hregular.goesBy hgoes hrest)
    fun other => World.get?_ledger_handle (hregular.concerns hrest) c.world

theorem consistent_of_reached (h : c.Reached) : c.Consistent := by
  induction h with
  | fresh w empty => exact consistent_fresh empty
  | others w _ same ih =>
    refine ⟨ih.own, fun root => ?_⟩
    rw [same]
    exact ih.goes root
  | start settings r _ ih => exact ih.start settings r
  | goOn root _ ih => exact ih.goOn root

/-- The ledger of a controller lists for a root what it should. -/
structure Lists (c : Controller) (root : Key) : Prop where
  /-- No key is listed twice. -/
  once : (Table.keys (c.world.ledger.children root)).Nodup
  /-- Listed are the keys of the children whose apply was completed in some pass over the root,
      unless that pass or a later one has dropped the root; they are owned where they live with
      it. -/
  listed : ∀ key owned, Table.get? (c.world.ledger.children root) key = some owned ↔
    Errand.Listed (c.passes root) key ∧ owned = decide (key.ns = root.ns)
  /-- Of a root that is being deleted every pass has dropped it that has come to a call, whether
      it goes on from there, fails or is given up. -/
  freed : ∀ e ∈ c.passes root, e.Leaving → e.rest.AtStore → e.Drops
  /-- No pass over another root changes the entry of this one. -/
  apart : ∀ other, other ≠ root →
    Table.get? (c.goOn other).world.ledger root = Table.get? c.world.ledger root

theorem Consistent.apart (h : c.Consistent) {root other : Key} (ne : other ≠ root) :
    Table.get? (c.goOn other).world.ledger root = Table.get? c.world.ledger root := by
  obtain hsame | ⟨e, earlier, q, next, hpasses, hrest, hstep⟩ := c.goOn_cases other
  · rw [hsame]
  obtain ⟨rfl, hregular⟩ := h.own other e (by simp [hpasses])
  rw [hstep]
  exact World.get?_ledger_handle (hregular.concerns hrest) c.world ne

/-- A controller starts with an empty ledger, and begins passes over any roots of either kind,
    whether they are being deleted or not.  They go on request by request in any order, while
    others do what they like to the world; each may fail or be cancelled at any request, or be
    given up.  At every moment the entry of a root lists exactly the keys of the children whose
    apply was completed for it since the entry was last dropped, each marked as owned exactly if it
    lies in the namespace of the root; and whatever goes on over other roots does not change it. -/
theorem lists_of_reached (h : c.Reached) (root : Key) : c.Lists root := by
  have hconsistent := consistent_of_reached h
  refine ⟨(hconsistent.goes root).once, (hconsistent.goes root).listed, ?_,
    fun other ne => hconsistent.apart ne⟩
  intro e he leaving far
  obtain ⟨rfl, hregular⟩ := hconsistent.own root e he
  exact .inl ⟨leaving, hregular.marks.freed leaving far⟩

/-- The latest passes over some roots go on, one request at a time. -/
def goOnAll (c : Controller) (roots : List Key) : Controller := roots.foldl goOn c

theorem Reached.goOnAll (h : c.Reached) (roots : List Key) : (c.goOnAll roots).Reached := by
  induction roots generalizing c with
  | nil => exact h
  | cons root roots ih => exact ih (h.goOn root)

/-- The controller is to stop. -/
def shutDown (c : Controller) : Controller := { c with world := { c.world with cancelled := true } }

theorem Reached.shutDown (h : c.Reached) : c.shutDown.Reached := .others _ h rfl

end Controller

/-- Passes over both roots go on in turn until the controller is shut down.  The SimulatorDeployment
    has applied one of its children by then; the SchedulerInstall comes to apply its only one. -/
def sharedController : Controller :=
  let roots := [linkedInstall.root.key, sharedSimulator.root.key]
  let fresh : Controller := ⟨sharedWorld, fun _ => []⟩
  let begun := (fresh.start linkedSettings linkedInstall).start linkedSettings sharedSimulator
  let shut := (begun.goOnAll (List.replicate 5 roots).flatten).shutDown
  shut.goOnAll (List.replicate 3 roots).flatten

/-- The SchedulerInstall is deleted before its pass has ended, and the pass over it then comes as
    far as its third request. -/
def releasingController : Controller :=
  (sharedController.start linkedSettings leavingInstall).goOnAll
    (List.replicate 3 linkedInstall.root.key)

theorem reached_sharedController : sharedController.Reached := by
  have hbegun : Controller.Reached ((Controller.start ⟨sharedWorld, fun _ => []⟩ linkedSettings
      linkedInstall).start linkedSettings sharedSimulator) := .start _ _ (.start _ _ (.fresh _ rfl))
  exact ((hbegun.goOnAll _).shutDown).goOnAll _

/-- The deletion drops one root; of the other one the child stays listed that was applied before
    its pass was cancelled. -/
theorem lists_of_reached_sharedController :
    (∀ root, sharedController.Lists root ∧ releasingController.Lists root) ∧
      sharedController.world.ledger = [(linkedInstall.root.key, [(linkedProxy, false)]),
        (sharedSimulator.root.key, [(⟨.deployment, "sims", "ms-sim-sim-decode"⟩, true)])] ∧
      Errand.Listed (sharedController.passes linkedInstall.root.key) linkedProxy ∧
      releasingController.world.ledger
        = [(sharedSimulator.root.key, [(⟨.deployment, "sims", "ms-sim-sim-decode"⟩, true)])] ∧
      ¬ Errand.Listed (releasingController.passes linkedInstall.root.key) linkedProxy := by
  have hshared := Controller.lists_of_reached reached_sharedController
  have hreleasing := Controller.lists_of_reached (c := releasingController)
    (.goOnAll (.start _ _ reached_sharedController) _)
  have hbefore : sharedController.world.ledger = [(linkedInstall.root.key, [(linkedProxy, false)]),
      (sharedSimulator.root.key, [(⟨.deployment, "sims", "ms-sim-sim-decode"⟩, true)])] := by
    decide +kernel
  have hafter : releasingController.world.ledger
      = [(sharedSimulator.root.key, [(⟨.deployment, "sims", "ms-sim-sim-decode"⟩, true)])] := by
    decide +kernel
  refine ⟨fun root => ⟨hshared root, hreleasing root⟩, hbefore, ?_, hafter, fun hlisted => ?_⟩
  · have hknown : Table.get? (sharedController.world.ledger.children linkedInstall.root.key)
        linkedProxy = some false := by
      rw [hbefore]
      decide +kernel
    exact (((hshared _).listed linkedProxy false).mp hknown).1
  · -- listed it would be in the ledger
    have hknown := ((hreleasing _).listed linkedProxy _).mpr ⟨hlisted, rfl⟩
    rw [hafter] at hknown
    exact absurd hknown (by decide +kernel)

end Converge
