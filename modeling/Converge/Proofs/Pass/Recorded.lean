/-
  Converge.Proofs.Pass.Recorded — holding a root puts namespaces on record, and does nothing else.

  The record is a text that others may have written, with blanks and empty parts, and it is printed
  anew whenever a namespace is added.  Of all that is stored of the root only the finalizer, the
  record and the version move; what is on record stays there, so that a root that is held for some
  namespaces need not be written for them again.

  Main statements:
    * `Object.heldAs_heldFor` — what holding makes of an object.
    * `World.grows_heldEach` — what is on record stays, however many calls follow.
    * `Pass.holdRoot_records` — what a call leaves, and what a sequence of calls leaves.
-/
import Converge.Proofs.Pass.Quiet
import Converge.Proofs.Table.Writes

namespace Converge

/-! ## §1. What holding makes of an object -/

namespace Finalizer

/-- The finalizers of others. -/
def foreign (m : Metadata) : List String := (m.finalizers.getD []).filter fun f => f ≠ name

theorem foreign_finalized (m : Metadata) : foreign (finalized m) = foreign m := by
  unfold finalized
  split
  · rfl
  · simp [foreign]

theorem finalizers_held (m : Metadata) (linked : Roster String) :
    (held m linked).finalizers = (finalized m).finalizers := by
  rw [held_eq]
  split <;> rfl

/-- Apart from the record the annotations stay. -/
theorem erase_annotations_held (m : Metadata) (linked : Roster String) :
    Table.erase ((held m linked).annotations.getD []) recordKey
      = Table.erase (m.annotations.getD []) recordKey := by
  rw [held_eq]
  split
  · rw [annotations_finalized]
  · exact Table.erase_insert _ _ _

/-- Holding touches finalizers and annotations alone. -/
theorem held_otherwise (m : Metadata) (linked : Roster String) :
    { held m linked with finalizers := m.finalizers, annotations := m.annotations } = m := by
  have hfinalized :
      { finalized m with finalizers := m.finalizers, annotations := m.annotations } = m := by
    unfold finalized
    split <;> rfl
  rw [held_eq]
  split <;> exact hfinalized

end Finalizer

namespace Object

/-- The second object is the first one, held for namespaces. -/
structure HeldAs (o : Object) (linked : Roster String) (q : Object) : Prop where
  holds : Finalizer.holds q.metadata = true
  recorded : Finalizer.recorded q.metadata
    = Roster.union (Finalizer.recorded o.metadata) linked
  /-- The finalizers of others stay, in their order. -/
  finalizers : Finalizer.foreign q.metadata = Finalizer.foreign o.metadata
  /-- So do all other annotations. -/
  annotations : Table.erase (q.metadata.annotations.getD []) Finalizer.recordKey
    = Table.erase (o.metadata.annotations.getD []) Finalizer.recordKey
  /-- Of all else only the version may have changed. -/
  rest : { q with metadata := { q.metadata with
    finalizers := o.metadata.finalizers
    annotations := o.metadata.annotations
    resourceVersion := o.metadata.resourceVersion } } = o

/-- The version plays no part in it. -/
theorem HeldAs.versioned {o q : Object} {linked : Roster String} (h : o.HeldAs linked q)
    (version : Option String) :
    o.HeldAs linked { q with metadata := { q.metadata with resourceVersion := version } } :=
  ⟨h.holds, h.recorded, h.finalizers, h.annotations, h.rest⟩

theorem heldAs_heldFor (o : Object) {linked : Roster String}
    (plain : ∀ ns ∈ linked, Finalizer.Plain ns) : o.HeldAs linked (o.heldFor linked) where
  holds := Finalizer.holds_held o.metadata linked
  recorded := Finalizer.recorded_held_eq plain
  finalizers := by
    have hforeign := Finalizer.foreign_finalized o.metadata
    unfold Finalizer.foreign at hforeign ⊢
    show ((Finalizer.held o.metadata linked).finalizers.getD []).filter _ = _
    rw [Finalizer.finalizers_held, hforeign]
  annotations := Finalizer.erase_annotations_held o.metadata linked
  rest := by
    have hversion := Finalizer.held_resourceVersion o.metadata linked
    have hrest := Finalizer.held_otherwise o.metadata linked
    show { o with metadata := { Finalizer.held o.metadata linked with
      finalizers := o.metadata.finalizers
      annotations := o.metadata.annotations
      resourceVersion := o.metadata.resourceVersion } } = o
    rw [← hversion]
    exact congrArg (fun m => ({ o with metadata := m } : Object)) hrest

end Object

/-! ## §2. One call -/

/-- An object is written over `o`, or not, and all else stays. -/
structure Store.Rewritten (s : Store) (key : Key) (o q : Object) (wrote : Bool) (t : Store) :
    Prop where
  objects : t.objects = Table.insert s.objects key q
  writes : t.writes = s.writes ++ if wrote then [(.update, key)] else []
  still : wrote = false → q = o ∧ t.version = s.version

namespace Pass

variable {w : World} {root : Root} {o : Object} {linked : Roster String}

/-- A root is held, unless the call is struck. -/
theorem ends_holdRoot_heldAs (alone : w.Alone)
    (here : Table.get? w.store.objects root.key = some o)
    (plain : ∀ ns ∈ linked, Finalizer.Plain ns) :
    (holdRoot root linked).Ends w
      (fun wrote v => ∃ q, o.HeldAs linked q ∧
        w.store.Rewritten root.key o q wrote v.store)
      fun _ _ => ¬ w.Calm := by
  have hheld := o.heldAs_heldFor plain
  have hread : w.store.perform (.get root.key) = (.ok (some o), w.store.countRead) := by
    rw [← here]
    rfl
  refine ends_call alone hread ?_ fun _ _ _ shaken _ _ => shaken
  intro v leads hv
  cases hn : Finalizer.hold? o.metadata linked with
  | none =>
    simp only [hn]
    rw [Object.heldFor_of_none hn] at hheld
    refine ⟨o, hheld, ?objects, ?writes, fun _ => ⟨rfl, ?version⟩⟩
    case objects =>
      rw [hv, Table.insert_of_get? here]
      rfl
    case writes =>
      rw [hv]
      exact (List.append_nil _).symm
    case version =>
      rw [hv]
      rfl
  | some m =>
    simp only [hn]
    rw [Object.heldFor_of_some hn] at hheld
    -- a read leaves the objects, so that the write finds the version that was read
    have hstored : Table.get? v.store.objects root.key = some o := by
      rw [hv]
      exact here
    have hupdate := Store.perform_update (o := { o with metadata := m }) hstored
      (Finalizer.hold?_resourceVersion hn) rfl
    refine ends_call leads.alone hupdate ?_ fun _ _ _ shaken _ _ => ?struck
    case struck => exact fun calm => shaken (leads.calm calm).1
    intro u _ hu
    refine ⟨v.store.stamped { o with metadata := m }, hheld.versioned _, ?objects, ?writes, nofun⟩
    case objects =>
      rw [hu, hv]
      rfl
    case writes =>
      rw [hu, hv]
      rfl

/-- A root that is held for the namespaces already is only read. -/
theorem holdRoot_idle (alone : w.Alone) (here : Table.get? w.store.objects root.key = some o)
    (idle : Finalizer.hold? o.metadata linked = none) :
    ∃ n, ((holdRoot root linked).run World.handle w).2.store = w.store.countReads n := by
  have hread : ∃ n, (World.handle (.call (.get root.key)) w).2.store = w.store.countReads n := by
    rcases alone.store_handle (.call (.get root.key)) with hsame | ⟨c, hc, hread⟩
    · exact ⟨0, hsame⟩
    · rw [← Request.call.inj hc] at hread
      exact ⟨1, hread⟩
  have hend : ((holdRoot root linked).run World.handle w).2
      = (World.handle (.call (.get root.key)) w).2 := by
    show (((ofReply (World.handle (.call (.get root.key)) w).1).bind fun stored => _).run
      World.handle (World.handle (.call (.get root.key)) w).2).2 = _
    cases hreply : (World.handle (.call (.get root.key)) w).1 with
    | error e => rfl
    | ok stored =>
      have hanswer := alone.answered (Prod.ext hreply rfl)
      obtain rfl : Table.get? w.store.objects root.key = stored :=
        Except.ok.inj (congrArg Prod.fst hanswer)
      simp only [here, ofReply, bind, idle]
      rfl
  rw [hend]
  exact hread

end Pass

/-! ## §3. Calls in turn -/

/-- The world after a root was held for one set of namespaces after another, whether the calls
    succeed or fail. -/
def World.heldEach (root : Root) (w : World) (calls : List (Roster String)) : World :=
  calls.foldl (fun w linked => ((Pass.holdRoot root linked).run World.handle w).2) w

/-- What was held is held, and what was on record is on record. -/
structure Finalizer.Grows (m n : Metadata) : Prop where
  holds : holds m = true → holds n = true
  recorded : ∀ ns ∈ recorded m, ns ∈ recorded n

theorem Finalizer.Grows.refl (m : Metadata) : Grows m m := ⟨id, fun _ h => h⟩

theorem Finalizer.Grows.trans {m n l : Metadata} (h : Grows m n) (g : Grows n l) : Grows m l :=
  ⟨fun hm => g.holds (h.holds hm), fun ns hns => g.recorded ns (h.recorded ns hns)⟩

theorem Finalizer.grows_held (m : Metadata) {linked : Roster String}
    (plain : ∀ ns ∈ linked, Plain ns) : Grows m (held m linked) := by
  refine ⟨fun _ => holds_held m linked, fun ns hns => ?_⟩
  rw [recorded_held_eq plain]
  exact (Roster.mem_union _ _ ns).mpr (.inl hns)

namespace World

variable {w : World} {root : Root} {o : Object}

/-- After a call, struck or not, the root is stored as it was or held. -/
theorem grows_holdRoot (alone : w.Alone) (here : Table.get? w.store.objects root.key = some o)
    {linked : Roster String} (plain : ∀ ns ∈ linked, Finalizer.Plain ns) :
    ((Pass.holdRoot root linked).run handle w).2.Alone ∧
      ∃ p, Table.get? ((Pass.holdRoot root linked).run handle w).2.store.objects root.key = some p ∧
        Finalizer.Grows o.metadata p.metadata := by
  have hface : w.store.face root.key = some o.face := by
    unfold Store.face
    rw [here]
    rfl
  -- finalizer and record are in the face of the root
  have hsame : ∀ v, w.Leads w.ledger w.store.face v → v.Alone ∧
      ∃ p, Table.get? v.store.objects root.key = some p ∧
        Finalizer.Grows o.metadata p.metadata := by
    intro v leads
    obtain ⟨p, hp, hpo⟩ := Store.exists_of_face ((congrFun leads.face root.key).trans hface)
    have hgrows : Finalizer.Grows o.face.metadata p.face.metadata := by
      rw [hpo]
      exact .refl _
    exact ⟨leads.alone, p, hp, hgrows.holds, hgrows.recorded⟩
  have hheld : ∀ v, w.Leads w.ledger
      (w.store.face.turn root.key (o.face.heldFor linked)) v → v.Alone ∧
      ∃ p, Table.get? v.store.objects root.key = some p ∧
        Finalizer.Grows o.metadata p.metadata := by
    intro v leads
    obtain ⟨p, hp, hpo⟩ := Store.exists_of_face
      ((congrFun leads.face root.key).trans (Faces.turn_self _ _ _))
    have hgrows : Finalizer.Grows o.face.metadata p.face.metadata := by
      rw [hpo]
      exact Finalizer.grows_held _ plain
    exact ⟨leads.alone, p, hp, hgrows.holds, hgrows.recorded⟩
  have hends := Pass.ends_holdRoot alone hface linked
  unfold Pass.Ends at hends
  generalize (Pass.holdRoot root linked).run handle w = ended at hends
  obtain ⟨reply, v⟩ := ended
  cases reply with
  | ok wrote => exact hheld v hends
  | error e => exact hends.2.elim (hsame v) (hheld v)

/-- What is on record stays, however many calls follow. -/
theorem grows_heldEach (alone : w.Alone) (here : Table.get? w.store.objects root.key = some o)
    {calls : List (Roster String)} (plain : ∀ linked ∈ calls, ∀ ns ∈ linked, Finalizer.Plain ns) :
    (w.heldEach root calls).Alone ∧
      ∃ p, Table.get? (w.heldEach root calls).store.objects root.key = some p ∧
        Finalizer.Grows o.metadata p.metadata := by
  induction calls generalizing w o with
  | nil => exact ⟨alone, o, here, .refl _⟩
  | cons linked calls ih =>
    obtain ⟨hlinked, hcalls⟩ := List.forall_mem_cons.mp plain
    obtain ⟨hstep, p, hp, hgrows⟩ := grows_holdRoot alone here hlinked
    obtain ⟨hend, q, hq, hrest⟩ := ih hstep hp hcalls
    exact ⟨hend, q, hq, hgrows.trans hrest⟩

end World

/-- A root is stored, whatever its annotations and finalizers are, and is held for namespaces that
    can be put on record; calls may be struck by faults, but nobody else writes.  A call that
    succeeds, as it does where no fault strikes, leaves the root with the finalizer and with the
    namespaces on record together with those that were there, and leaves all else as it was; it
    tells whether it wrote the root.  In any sequence of calls the finalizer and the namespaces on
    record stay, and a call that finds both there writes nothing. -/
theorem Pass.holdRoot_records {root : Root} {w : World} (alone : w.Alone) {o : Object}
    (here : Table.get? w.store.objects root.key = some o) :
    (∀ linked, (∀ ns ∈ linked, Finalizer.Plain ns) →
      (w.Calm → ∃ wrote v, (holdRoot root linked).run World.handle w = (.ok wrote, v)) ∧
      ∀ wrote v, (holdRoot root linked).run World.handle w = (.ok wrote, v) →
        ∃ q, o.HeldAs linked q ∧ w.store.Rewritten root.key o q wrote v.store) ∧
    ∀ before after : List (Roster String),
      (∀ linked ∈ before ++ after, ∀ ns ∈ linked, Finalizer.Plain ns) →
      ∃ p q, Table.get? (w.heldEach root before).store.objects root.key = some p ∧
        Table.get? (w.heldEach root (before ++ after)).store.objects root.key = some q ∧
        Finalizer.Grows p.metadata q.metadata ∧
        ∀ linked, Finalizer.holds q.metadata = true →
          (∀ ns ∈ linked, ns ∈ Finalizer.recorded q.metadata) →
          ∃ n, ((holdRoot root linked).run World.handle
              (w.heldEach root (before ++ after))).2.store
            = (w.heldEach root (before ++ after)).store.countReads n := by
  refine ⟨?one, ?turns⟩
  case one =>
    intro linked plain
    have hends := ends_holdRoot_heldAs alone here plain
    refine ⟨fun calm => ?_, fun wrote v run => hends.of_ok run⟩
    obtain ⟨wrote, v, hrun, _⟩ :=
      (hends.mono (fun _ _ h => h) fun _ _ shaken => shaken calm).exists_run
    exact ⟨wrote, v, hrun⟩
  case turns =>
    intro before after plain
    obtain ⟨hbefore, hafter⟩ := List.forall_mem_append.mp plain
    obtain ⟨hv, p, hp, _⟩ := World.grows_heldEach alone here hbefore
    obtain ⟨hu, q, hq, hgrows⟩ := World.grows_heldEach hv hp hafter
    have hsplit : (w.heldEach root before).heldEach root after
        = w.heldEach root (before ++ after) := List.foldl_append.symm
    rw [hsplit] at hu hq
    refine ⟨p, q, hp, hq, hgrows, fun linked holds known => ?_⟩
    exact holdRoot_idle hu hq (Finalizer.hold?_eq_none_iff.mpr ⟨holds, known⟩)

/-- A root with a finalizer and an annotation of others, and with a record that others have edited. -/
def remarkedObject : Object where
  metadata := {
    name := some "pool"
    ns := some "default"
    finalizers := some ["team/keep"]
    annotations := some [("note", "x"), (Finalizer.recordKey, " b ,, a")] }
  data := .obj [("status", .obj [])]

/-- Its identity. -/
def remarkedRoot : Root := ⟨.schedulerInstall, "pool", "default", "u-1"⟩

/-- A store with that root. -/
def remarkedWorld : World where
  store := { objects := [(remarkedRoot.key, remarkedObject)] }

/-- The root is held for a third namespace, and needs no write when it is held for that and an
    earlier one. -/
theorem holdRoot_records_remarked :
    remarkedWorld.Alone ∧
    Table.get? remarkedWorld.store.objects remarkedRoot.key = some remarkedObject ∧
    (∀ ns ∈ ["c"], Finalizer.Plain ns) ∧
    Finalizer.recorded remarkedObject.metadata = ["a", "b"] ∧
    ∃ wrote v q,
      (Pass.holdRoot remarkedRoot ["c"]).run World.handle remarkedWorld = (.ok wrote, v) ∧
      remarkedWorld.store.Rewritten remarkedRoot.key remarkedObject q wrote v.store ∧
      Finalizer.recorded q.metadata = ["a", "b", "c"] ∧
      Finalizer.foreign q.metadata = ["team/keep"] ∧
      ∃ n, ((Pass.holdRoot remarkedRoot ["a", "c"]).run World.handle v).2.store
        = v.store.countReads n := by
  have hcalm : remarkedWorld.Calm := rfl
  have here : Table.get? remarkedWorld.store.objects remarkedRoot.key = some remarkedObject := by
    decide
  have hplain : ∀ ns ∈ ["c"], Finalizer.Plain ns :=
    List.forall_mem_singleton.mpr ⟨by decide, by decide, by decide⟩
  have hrecorded : Finalizer.recorded remarkedObject.metadata = ["a", "b"] := by decide
  obtain ⟨one, turns⟩ := Pass.holdRoot_records hcalm.alone here
  obtain ⟨wrote, v, hrun⟩ := (one ["c"] hplain).1 hcalm
  obtain ⟨q, held, rewritten⟩ := (one ["c"] hplain).2 wrote v hrun
  have hall : Finalizer.recorded q.metadata = ["a", "b", "c"] := by
    rw [held.recorded, hrecorded]
    decide
  refine ⟨hcalm.alone, here, hplain, hrecorded, wrote, v, q, hrun, rewritten, hall,
    held.finalizers, ?_⟩
  -- the call is a sequence of one, after which the root is stored as `q`
  obtain ⟨_, p, _, hp, _, idle⟩ := turns [] [["c"]] (List.forall_mem_singleton.mpr hplain)
  have hv : remarkedWorld.heldEach remarkedRoot ([] ++ [["c"]]) = v := congrArg Prod.snd hrun
  rw [hv] at hp idle
  obtain rfl : q = p := by
    rw [rewritten.objects, Table.get?_insert, if_pos rfl] at hp
    exact Option.some.inj hp
  exact idle ["a", "c"] held.holds fun ns hns => by
    rw [hall]
    revert ns
    decide

end Converge
