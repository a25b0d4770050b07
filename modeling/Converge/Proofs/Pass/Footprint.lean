/-
  Converge.Proofs.Pass.Footprint — what a pass may touch at all.

  A part of the world belongs to a root: the root itself, its entry in the ledger, what is told of
  it, and some keys of the store.  Once its root is held, a pass writes only the children and the
  status of the root, whatever it is answered.

  Main statements:
    * `Plan.only_goOn` — what a pass may ask for, from what settles its children.
    * `Pass.only_release` — what a pass may ask for that releases its root.
    * `Plan.stays_goOn` — it stays in a part that has the children's keys.
-/
import Converge.Proofs.Pass.Amid
import Converge.Proofs.Pass.Plan

namespace Converge

/-! ## §1. Parts of the world -/

/-- A root, and the keys of the store that are its own. -/
structure Part where
  root : Root
  owns : Key → Prop
  owns_root : owns root.key

/-- The request changes nothing outside a part. -/
def Request.Stays (P : Part) : Request → Prop
  | .call (.create key _) => P.owns key
  | .call (.update key _) => P.owns key
  | .call (.updateStatus key _) => P.owns key
  | .call (.delete key) => P.owns key
  | .record root _ _ => root = P.root.key
  | .forget root => root = P.root.key
  | .announce root _ => root = P.root
  | _ => True

theorem Request.stays_create {P : Part} {key : Key} (owned : P.owns key) (o : Object) :
    (Request.call (.create key o)).Stays P := owned

theorem Request.stays_update {P : Part} {key : Key} (owned : P.owns key) (o : Object) :
    (Request.call (.update key o)).Stays P := owned

theorem Request.stays_updateStatus {P : Part} {key : Key} (owned : P.owns key) (o : Object) :
    (Request.call (.updateStatus key o)).Stays P := owned

theorem Request.stays_record (P : Part) (child : Key) (owned : Bool) :
    (Request.record P.root.key child owned).Stays P := rfl

theorem Request.stays_forget (P : Part) : (Request.forget P.root.key).Stays P := rfl

theorem Request.stays_announce (P : Part) (event : Event) :
    (Request.announce P.root event).Stays P := rfl

/-! ## §2. The parts of a pass -/

namespace Pass

/-- The requests that a pass over a root makes whatever its children are, but for telling. -/
structure Silent (root : Root) (P : Request → Prop) : Prop where
  get : P (.call (.get root.key))
  capabilities : P .capabilities
  isCancelled : P .isCancelled
  clock : P .clock
  record : ∀ child owned, P (.record root.key child owned)
  forget : P (.forget root.key)
  report : ∀ o, P (.call (.updateStatus root.key o))

/-- The requests that a pass over a root makes whatever its children are. -/
structure Common (root : Root) (P : Request → Prop) : Prop extends Silent root P where
  announce : ∀ event, P (.announce root event)

/-- As long as the answers are as `A` says, a child is read and settled by requests that `P`
    allows. -/
structure Reaches (A : (r : Request) → r.Reply → Prop) (P : Request → Prop) (c : Child) :
    Prop where
  get : P (.call (.get c.key))
  settled : ∀ stored, A (.call (.get c.key)) (.ok stored) → (settle c stored).OnlyIf A P

variable {A : (r : Request) → r.Reply → Prop} {P : Request → Prop} {root : Root}

theorem only_settle {c : Child} {stored : Option Object}
    (created : P (.call (.create c.key c.toObject)))
    (updated : ∀ cur next, stored = some cur → c.amend? cur = some next →
      P (.call (.update c.key next))) : (settle c stored).OnlyIf A P := by
  cases stored with
  | none => exact (only_call created).bind fun _ => trivial
  | some cur =>
    unfold settle
    cases hn : c.amend? cur with
    | none =>
      simp only [hn]
      trivial
    | some next =>
      simp only [hn]
      exact (only_call (updated cur next rfl hn)).bind fun _ => trivial

/-- A child whose key may be read and written. -/
theorem Reaches.of_key {c : Child} (get : P (.call (.get c.key)))
    (create : ∀ o, P (.call (.create c.key o))) (update : ∀ o, P (.call (.update c.key o))) :
    Reaches A P c :=
  ⟨get, fun _ _ => only_settle (create _) fun _ next _ _ => update next⟩

/-- The root is held back by a read and a write of it. -/
theorem only_holdIfLinked (get : P (.call (.get root.key)))
    (update : ∀ o, P (.call (.update root.key o))) (settings : Settings)
    (linked : Roster String) : (holdIfLinked settings root linked).OnlyIf A P := by
  unfold holdIfLinked
  split
  · refine OnlyIf.bind ?_ fun _ => trivial
    refine (only_call get).bind fun stored => ?_
    cases stored with
    | none => trivial
    | some o =>
      cases hm : Finalizer.hold? o.metadata linked with
      | none =>
        simp only [hm]
        trivial
      | some m =>
        simp only [hm]
        exact (only_call (update _)).bind fun _ => trivial
  · trivial

theorem only_apply (common : Common root P) {c : Child} (reaches : Reaches A P c) :
    (apply root.key c).OnlyIf A P :=
  onlyIf_call reaches.get fun stored answer => (reaches.settled stored answer).bind fun _ =>
    (only_request (common.record c.key _)).bind fun _ => trivial

theorem only_applyAll (common : Common root P) {cs : List Child}
    (reaches : ∀ c ∈ cs, Reaches A P c) (tally : Tally) :
    (applyAll root.key cs tally).OnlyIf A P := by
  induction cs generalizing tally with
  | nil => trivial
  | cons c cs ih =>
    refine (only_request common.isCancelled).bind fun cancelled => ?_
    split
    · trivial
    · exact (only_apply common (reaches c (by simp))).bind fun outcome =>
        ih (fun d hd => reaches d (List.mem_cons_of_mem _ hd)) _

theorem only_observe {keys : List Key} (get : ∀ key ∈ keys, P (.call (.get key))) :
    (observe keys).OnlyIf A P := by
  induction keys with
  | nil => trivial
  | cons key keys ih =>
    refine (only_call (get key (by simp))).bind fun _ => ?_
    exact (ih fun k hk => get k (List.mem_cons_of_mem _ hk)).bind fun _ => trivial

theorem only_applyAndObserve (common : Common root P) {cs : List Child}
    (reaches : ∀ c ∈ cs, Reaches A P c) :
    (applyAndObserve root cs).OnlyIf A P := by
  refine (only_applyAll common reaches {}).bind fun _ => ?_
  -- what is observed was applied before
  refine (only_observe fun key hkey => ?_).bind fun _ => trivial
  obtain ⟨c, hc, rfl⟩ := List.mem_map.mp hkey
  exact (reaches c (List.mem_filter.mp hc).1).get

theorem only_writeStatus (common : Common root P) {τ : Type} [DecidableEq τ]
    (form : StatusForm τ) (generation : Option Int64) (verdict : Verdict) (now : String)
    (change : τ → τ) :
    (writeStatus form root.key generation verdict now change).OnlyIf A P := by
  refine (only_call common.get).bind fun stored => ?_
  cases stored with
  | none => trivial
  | some o =>
    cases hstatus : form.stored? o.data with
    | none =>
      simp only [hstatus]
      trivial
    | some status =>
      simp only [hstatus]
      split
      · trivial
      · exact (only_call (common.report _)).bind fun _ => trivial

theorem only_finish (common : Common root P) (settings : Settings) (tally : Tally)
    (outcome : StatusWrite) : (finish settings root tally outcome).OnlyIf A P := by
  by_cases gone : outcome = .rootGone
  · rw [gone]
    exact (only_request common.forget).bind fun _ => trivial
  · -- with the root in place nothing is left but to tell of the children
    rw [finish_of_there settings root tally gone]
    split
    · exact (only_request (common.announce _)).bind fun _ => trivial
    · trivial

end Pass

/-! ## §3. The whole -/

namespace Plan

variable {τ : Type} [DecidableEq τ]

/-- The steps of a pass once the root is held. -/
def goOn (settings : Settings) (p : Plan τ) : Pass NextLook :=
  (Pass.request .capabilities).bind fun caps =>
    (Pass.applyAndObserve p.root (p.children caps)).bind fun seen =>
      (Pass.request .clock).bind fun now =>
        (Pass.writeStatus p.form p.root.key p.generation (Verdict.ofObservations p.text seen.2) now
          (p.change seen.2)).bind fun outcome => Pass.finish settings p.root seen.1 outcome

theorem steps_eq (settings : Settings) (p : Plan τ) : p.steps settings
    = (Pass.holdIfLinked settings p.root p.linked).bind fun _ => p.goOn settings := rfl

/-- Once the root is held, a pass asks for nothing but what settles the children that it has under
    the capabilities it is told of, and the requests that all passes make. -/
theorem only_goOn {A : (r : Request) → r.Reply → Prop} {P : Request → Prop} {p : Plan τ}
    (common : Pass.Common p.root P)
    (reaches : ∀ caps, A .capabilities caps → ∀ c ∈ p.children caps, Pass.Reaches A P c)
    (settings : Settings) : (p.goOn settings).OnlyIf A P :=
  ⟨common.capabilities, fun caps told =>
    (Pass.only_applyAndObserve common (reaches caps told)).bind fun _ =>
      (Pass.only_request common.clock).bind fun _ =>
        (Pass.only_writeStatus common p.form _ _ _ _).bind fun outcome =>
          Pass.only_finish common settings _ outcome⟩

end Plan

/-! ## §4. Passes that release a root -/

namespace Pass

/-- As long as the answers are as `A` says, the requests that release a root are allowed: lists
    and deletions are of kinds that are told to be served. -/
structure Releases (A : (r : Request) → r.Reply → Prop) (P : Request → Prop) (root : Root) : Prop
    extends Silent root P where
  known : P (.linkedChildren root.key)
  update : ∀ o, P (.call (.update root.key o))
  list : ∀ caps, A .capabilities caps → ∀ kind ns selector, caps.supports kind = true →
    P (.call (.list kind ns selector))
  delete : ∀ caps, A .capabilities caps → ∀ key : Key, caps.supports key.kind = true →
    P (.call (.delete key))

/-- Lists and deletions are allowed, of kinds that are served. -/
structure Deletes (P : Request → Prop) (caps : Capabilities) : Prop where
  list : ∀ kind ns selector, caps.supports kind = true → P (.call (.list kind ns selector))
  delete : ∀ key : Key, caps.supports key.kind = true → P (.call (.delete key))

/-- The requests that let go of a root are allowed. -/
structure LetsGo (P : Request → Prop) (root : Root) (caps : Capabilities) : Prop
    extends Deletes P caps where
  known : P (.linkedChildren root.key)
  forget : P (.forget root.key)
  get : P (.call (.get root.key))
  update : ∀ o, P (.call (.update root.key o))

theorem Releases.letsGo {A : (r : Request) → r.Reply → Prop} {P : Request → Prop} {root : Root}
    {caps : Capabilities} (h : Releases A P root) (told : A .capabilities caps) :
    LetsGo P root caps where
  known := h.known
  forget := h.forget
  get := h.get
  update := h.update
  list := h.list caps told
  delete := h.delete caps told

section Deletes

variable {A : (r : Request) → r.Reply → Prop} {P : Request → Prop} {root : Root}
  {caps : Capabilities} (h : Deletes P caps)

include h

/-- What is found in places of kinds that are served is of such kinds. -/
theorem only_collectLinked {α : Type} {next : Roster Key → Pass α} {places : List (String × Kind)}
    (placed : ∀ place ∈ places, caps.supports place.2 = true) {found : Roster Key}
    (served : ∀ key ∈ found, caps.supports key.kind = true)
    (go : ∀ doomed : Roster Key, (∀ key ∈ doomed, caps.supports key.kind = true) →
      (next doomed).OnlyIf A P) : ((collectLinked root places found).bind next).OnlyIf A P := by
  induction places generalizing found with
  | nil => exact go found served
  | cons place places ih =>
    obtain ⟨ns, kind⟩ := place
    have hkind : caps.supports kind = true := placed _ List.mem_cons_self
    show (((call (.list kind ns root.linkSelector)).bind fun objects => .done (objects.map
      fun o => ⟨kind, ns, o.metadata.name.getD ""⟩)).bind fun keys =>
        collectLinked root places (Roster.union found keys)).bind next |>.OnlyIf A P
    rw [bind_assoc, bind_assoc]
    refine onlyIf_call (h.list kind ns _ hkind) fun objects _ => ?_
    refine ih (fun p hp => placed p (List.mem_cons_of_mem _ hp)) ?_
    intro key hkey
    rcases (Roster.mem_union _ _ key).mp hkey with hkey | hkey
    · exact served key hkey
    · obtain ⟨o, _, rfl⟩ := List.mem_map.mp hkey
      exact hkind

theorem only_deleteAll {keys : List Key} (served : ∀ key ∈ keys, caps.supports key.kind = true) :
    (deleteAll keys).OnlyIf A P := by
  induction keys with
  | nil => trivial
  | cons key keys ih =>
    refine (only_call (h.delete key (served key (by simp)))).bind fun _ => ?_
    exact ih fun k hk => served k (List.mem_cons_of_mem _ hk)

/-- Both what the ledger knows and what is listed is passed over where its kind is not served. -/
theorem only_deleteLinked (metadata : Metadata) (known : List Key) (scope : Roster String) :
    (deleteLinked root metadata known scope caps).OnlyIf A P := by
  refine only_collectLinked h ?placed ?served fun doomed hdoomed =>
    (only_deleteAll h hdoomed).bind fun _ => trivial
  case placed =>
    rintro ⟨ns, kind⟩ hplace
    obtain ⟨_, _, hplace⟩ := List.mem_flatMap.mp hplace
    obtain ⟨k, hk, heq⟩ := List.mem_map.mp hplace
    rw [← (Prod.mk.inj heq).2]
    exact (List.mem_filter.mp hk).2
  case served =>
    intro key hkey
    have hours := (List.mem_filter.mp ((Roster.mem_ofList _ key).mp hkey)).2
    exact (Bool.and_eq_true_iff.mp hours).2

end Deletes

theorem only_releaseRoot {A : (r : Request) → r.Reply → Prop} {P : Request → Prop} {root : Root}
    {caps : Capabilities} (h : LetsGo P root caps) (scope : Option (Roster String)) :
    (releaseRoot root scope caps).OnlyIf A P := by
  refine (only_request h.known).bind fun known => ?_
  refine (only_request h.forget).bind fun _ => ?_
  refine (only_call h.get).bind fun stored => ?_
  cases stored with
  | none => trivial
  | some o =>
    have hrelease : ∀ n : Nat, ((call (.update root.key
        { o with metadata := Finalizer.released o.metadata })).bind fun _ =>
          Pass.done n).OnlyIf A P :=
      fun n => (only_call (h.update _)).bind fun _ => trivial
    show (if Finalizer.holds o.metadata then _ else _ : Pass Nat).OnlyIf _ _
    split
    · cases scope with
      | none => exact hrelease 0
      | some scope => exact (only_deleteLinked h.toDeletes _ _ _).bind hrelease
    · trivial

theorem only_release {A : (r : Request) → r.Reply → Prop} {P : Request → Prop} {root : Root}
    (h : Releases A P root) (settings : Settings) (namespaces : Roster String) :
    (release settings root namespaces).OnlyIf A P :=
  ⟨h.capabilities, fun _ told => (only_releaseRoot (h.letsGo told) _).bind fun _ => trivial⟩

end Pass

/-! ## §5. Passes that stay in a part -/

namespace Pass

variable {P : Part}

theorem common_stays (P : Part) : Common P.root (Request.Stays P) where
  get := trivial
  capabilities := trivial
  isCancelled := trivial
  clock := trivial
  record child owned := Request.stays_record P child owned
  forget := Request.stays_forget P
  announce event := Request.stays_announce P event
  report o := Request.stays_updateStatus P.owns_root o

end Pass

/-- Once the root is held, a pass touches nothing outside a part that has the root's children. -/
theorem Plan.stays_goOn {τ : Type} [DecidableEq τ] {p : Plan τ} {P : Part} (root : p.root = P.root)
    (owned : ∀ caps, ∀ c ∈ p.children caps, P.owns c.key) (settings : Settings) :
    (p.goOn settings).Only (Request.Stays P) := by
  refine Plan.only_goOn ?common (fun caps _ c hc => ?reaches) settings
  case common =>
    rw [root]
    exact Pass.common_stays P
  case reaches =>
    have hown := owned caps c hc
    exact .of_key trivial (fun o => Request.stays_create hown o) fun o =>
      Request.stays_update hown o

end Converge
