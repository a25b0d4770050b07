/-
  Converge.Proofs.Pass.Release — how letting a root go ends, also when it is cut short.

  Deletions cannot be taken back, and any call may fail between two of them.  As long as no other
  actor writes, what the store holds is told here object by object, versions included, after all
  went well and after a fault.  The root is written last, so that a fault finds it as it was, with
  its finalizer and its record, unless it was the answer to that one write that was lost.

  Main statements:
    * `Pass.releaseRoot_ends` — what goes, what stays, and what is left for another try.
    * `World.CutShort.retried` — another try that is not cut short makes good for the first.
-/
import Converge.Proofs.Pass.Cleanup
import Mathlib.Data.List.Nodup

namespace Converge

/-! ## §1. What is to go with a root -/

/-- The key is to go with the root: there is a scope and the root holds the finalizer; the key is
    outside its namespace, and of a kind of children that is served; and it is among those known,
    or what is stored there is linked to the root, in a namespace on record or in the scope. -/
def Store.Condemns (s : Store) (root : Root) (scope : Option (Roster String))
    (caps : Capabilities) (known : List Key) (key : Key) : Prop :=
  ∃ o namespaces, Table.get? s.objects root.key = some o ∧ Finalizer.holds o.metadata = true ∧
    scope = some namespaces ∧ key.ns ≠ root.ns ∧ key.kind ∈ Kind.children ∧
    caps.supports key.kind = true ∧ (key ∈ known ∨
      ((key.ns ∈ Finalizer.recorded o.metadata ∨ key.ns ∈ namespaces) ∧ s.LinkedTo root key))

namespace World

/-- The root was let go: what is condemned is gone, and nothing else.  A root that held the
    finalizer has lost it, and its record, and has a new version; its other finalizers are in
    their order. -/
structure LetGo (w : World) (root : Root) (scope : Option (Roster String)) (caps : Capabilities)
    (w' : World) : Prop where
  ledger : w'.ledger = w.ledger.forget root.key
  gone : ∀ key, w.store.Condemns root scope caps (w.ledger.linked root.key) key →
    Table.get? w'.store.objects key = none
  kept : ∀ key, ¬ w.store.Condemns root scope caps (w.ledger.linked root.key) key →
    key ≠ root.key → Table.get? w'.store.objects key = Table.get? w.store.objects key
  free : (∀ o, Table.get? w.store.objects root.key = some o →
      Finalizer.holds o.metadata = false) →
    Table.get? w'.store.objects root.key = Table.get? w.store.objects root.key
  released : ∀ o, Table.get? w.store.objects root.key = some o →
    Finalizer.holds o.metadata = true → ∃ version,
      Table.get? w'.store.objects root.key = some { o with metadata := { o.metadata with
        finalizers := some ((o.metadata.finalizers.getD []).filter (· ≠ Finalizer.name))
        annotations := o.metadata.annotations.map (Table.erase · Finalizer.recordKey)
        resourceVersion := some version } }

/-- Letting the root go was cut short: some of what is condemned is gone, and nothing else.  The
    root is as it was, unless the answer to its update was lost, and then all is done.  What its
    labels condemn is gone or is still condemned for another try. -/
structure CutShort (w : World) (root : Root) (scope : Option (Roster String))
    (caps : Capabilities) (w' : World) : Prop where
  shaken : ¬ w.Calm
  ledger : w'.ledger = w.ledger.forget root.key
  others : ∀ key, key ≠ root.key →
    Table.get? w'.store.objects key = Table.get? w.store.objects key ∨
      Table.get? w'.store.objects key = none ∧
        w.store.Condemns root scope caps (w.ledger.linked root.key) key
  unchanged : Table.get? w'.store.objects root.key = Table.get? w.store.objects root.key ∨
    w.Losing .update ∧ w.LetGo root scope caps w'
  left : ∀ key, w.store.Condemns root scope caps [] key →
    Table.get? w'.store.objects key = none ∨ w'.store.Condemns root scope caps [] key

end World

/-- Where the root and what is stored under the key are as they were, the labels still condemn
    the key. -/
theorem Store.Condemns.again {s t : Store} {root : Root} {scope : Option (Roster String)}
    {caps : Capabilities} {key : Key} (h : s.Condemns root scope caps [] key)
    (held : Table.get? t.objects root.key = Table.get? s.objects root.key)
    (same : Table.get? t.objects key = Table.get? s.objects key) :
    t.Condemns root scope caps [] key := by
  obtain ⟨o, namespaces, ho, holds, hscope, hns, hkind, hserved, hknown | ⟨hplace, hlinked⟩⟩ := h
  · exact absurd hknown List.not_mem_nil
  · refine ⟨o, namespaces, held.trans ho, holds, hscope, hns, hkind, hserved, .inr ⟨hplace, ?_⟩⟩
    obtain ⟨p, hp, links⟩ := hlinked
    exact ⟨p, same.trans hp, links⟩

/-- With a scope, and a root that holds the finalizer. -/
theorem Store.condemns_iff {s : Store} {root : Root} {namespaces : Roster String}
    {caps : Capabilities} {known : List Key} {o : Object}
    (stored : Table.get? s.objects root.key = some o)
    (holds : Finalizer.holds o.metadata = true)
    (children : ∀ key ∈ known, key.kind ∈ Kind.children) (key : Key) :
    s.Condemns root (some namespaces) caps known key
      ↔ s.Reaches root o.metadata known namespaces caps key := by
  constructor
  · rintro ⟨p, _, hp, _, hscope, hns, hkind, hserved, hwhy⟩
    obtain rfl := Option.some.inj (stored.symm.trans hp)
    obtain rfl := Option.some.inj hscope
    exact ⟨hns, hserved, hwhy.imp id fun h => ⟨h.1, hkind, h.2⟩⟩
  · rintro ⟨hns, hserved, hknown | ⟨hplace, hkind, hlinked⟩⟩
    · exact ⟨o, _, stored, holds, rfl, hns, children key hknown, hserved, .inl hknown⟩
    · exact ⟨o, _, stored, holds, rfl, hns, hkind, hserved, .inr ⟨hplace, hlinked⟩⟩

/-- The more keys are known, the more are condemned. -/
theorem Store.Condemns.mono {s : Store} {root : Root} {scope : Option (Roster String)}
    {caps : Capabilities} {known more : List Key} {key : Key}
    (h : s.Condemns root scope caps known key) (sub : known ⊆ more) :
    s.Condemns root scope caps more key := by
  obtain ⟨o, namespaces, ho, holds, hscope, hns, hkind, hserved, hwhy⟩ := h
  exact ⟨o, namespaces, ho, holds, hscope, hns, hkind, hserved, hwhy.imp (@sub key) id⟩

theorem Store.Condemns.ne_root {s : Store} {root : Root} {scope : Option (Roster String)}
    {caps : Capabilities} {known : List Key} {key : Key}
    (h : s.Condemns root scope caps known key) : key ≠ root.key := by
  obtain ⟨_, _, _, _, _, hns, _⟩ := h
  rintro rfl
  exact hns rfl

/-! ## §2. Letting go -/

namespace Pass

variable {w v : World} {root : Root} {scope : Option (Roster String)} {caps : Capabilities}

/-- A world in which the root is forgotten, and all else is as it was. -/
structure Forgot (w : World) (root : Root) (v : World) : Prop where
  alone : v.Alone
  calm : w.Calm → v.Calm
  losing : ∀ kind, v.Losing kind → w.Losing kind
  ledger : v.ledger = w.ledger.forget root.key
  objects : v.store.objects = w.store.objects

/-- Where nothing is condemned the root is let go by being forgotten. -/
theorem Forgot.letGo (h : Forgot w root v)
    (free : ∀ o, Table.get? w.store.objects root.key = some o →
      Finalizer.holds o.metadata = false) : w.LetGo root scope caps v where
  ledger := h.ledger
  gone := by
    rintro key ⟨o, _, ho, holds, _⟩
    rw [free o ho] at holds
    exact absurd holds nofun
  kept key _ _ := by rw [h.objects]
  free _ := by rw [h.objects]
  released o ho holds := by
    rw [free o ho] at holds
    exact absurd holds nofun

/-- After a fault before the update, the root is as it was. -/
theorem Forgot.cutShort (h : Forgot w root v) {u : World} {keys : List Key}
    (drops : v.Drops keys u) (shaken : ¬ v.Calm)
    (condemned : ∀ key ∈ keys,
      w.store.Condemns root scope caps (w.ledger.linked root.key) key) :
    w.CutShort root scope caps u := by
  have hstored : ∀ key, Table.get? u.store.objects key
      = if key ∈ keys then none else Table.get? w.store.objects key := by
    intro key
    rw [drops.stored, h.objects]
  have hroot : Table.get? u.store.objects root.key = Table.get? w.store.objects root.key := by
    rw [hstored, if_neg fun hmem => (condemned _ hmem).ne_root rfl]
  have hothers : ∀ key, Table.get? u.store.objects key = Table.get? w.store.objects key ∨
      Table.get? u.store.objects key = none ∧ key ∈ keys := by
    intro key
    rw [hstored]
    by_cases hmem : key ∈ keys
    · exact .inr ⟨if_pos hmem, hmem⟩
    · exact .inl (if_neg hmem)
  refine ⟨fun calm => shaken (h.calm calm), drops.ledger.trans h.ledger, ?_, .inl hroot, ?_⟩
  · exact fun key _ => (hothers key).imp id fun hgone => ⟨hgone.1, condemned key hgone.2⟩
  · intro key hkey
    rcases hothers key with hsame | hgone
    · exact .inr (hkey.again hroot hsame)
    · exact .inl hgone.1

/-- After the update all is done. -/
theorem Forgot.updated (h : Forgot w root v) {x u : World} {keys : List Key}
    (drops : v.Drops keys x)
    (condemned : ∀ key, key ∈ keys ↔
      w.store.Condemns root scope caps (w.ledger.linked root.key) key)
    {o : Object} (ho : Table.get? w.store.objects root.key = some o)
    (holds : Finalizer.holds o.metadata = true) (passes : x.Passes u)
    (store : u.store = (x.store.put root.key
      { o with metadata := Finalizer.released o.metadata }).log .update root.key) :
    w.LetGo root scope caps u := by
  have hstored : ∀ key, key ≠ root.key → Table.get? u.store.objects key
      = if key ∈ keys then none else Table.get? w.store.objects key := by
    intro key hne
    rw [store, ← h.objects, ← drops.stored]
    show Table.get? (Table.insert x.store.objects root.key _) key = _
    rw [Table.get?_insert, if_neg hne.symm]
  refine ⟨(passes.ledger.trans drops.ledger).trans h.ledger, ?gone, ?kept, ?free, ?released⟩
  case gone =>
    intro key hkey
    rw [hstored key hkey.ne_root, if_pos ((condemned key).mpr hkey)]
  case kept =>
    intro key hkey hne
    rw [hstored key hne, if_neg fun hmem => hkey ((condemned key).mp hmem)]
  case free =>
    intro free
    rw [free o ho] at holds
    exact absurd holds nofun
  case released =>
    intro p hp _
    obtain rfl := Option.some.inj (ho.symm.trans hp)
    refine ⟨toString (x.store.version + 1), ?_⟩
    rw [store]
    show Table.get? (Table.insert x.store.objects root.key _) root.key = _
    rw [Table.get?_insert, if_pos rfl]
    rfl

/-- The root is written last. -/
theorem ends_letGo (h : Forgot w root v) {x : World} {keys : List Key} (drops : v.Drops keys x)
    (condemned : ∀ key, key ∈ keys ↔
      w.store.Condemns root scope caps (w.ledger.linked root.key) key)
    {o : Object} (ho : Table.get? w.store.objects root.key = some o)
    (holds : Finalizer.holds o.metadata = true) (n : Nat) :
    ((call (.update root.key { o with metadata := Finalizer.released o.metadata })).bind
      fun _ => Pass.done n).Ends x (fun _ w' => w.LetGo root scope caps w')
      fun _ w' => w.CutShort root scope caps w' := by
  -- the root is none of those that are gone
  have hhere : Table.get? x.store.objects root.key = some o := by
    rw [drops.stored, if_neg fun hmem => ((condemned _).mp hmem).ne_root rfl, h.objects]
    exact ho
  have answer : x.store.perform
      (.update root.key { o with metadata := Finalizer.released o.metadata }) = (.ok _, _) :=
    Store.perform_update hhere rfl rfl
  refine ends_struck drops.alone answer ?answered ?struck
  case answered => exact fun w' passes store => h.updated drops condemned ho holds passes store
  case struck =>
    intro w' e shaken passes store
    have hshaken : ¬ v.Calm := fun calm => shaken (drops.calm calm).1
    rcases store with store | ⟨losing, store⟩
    · refine h.cutShort (drops.trans (World.Keeps.drops ⟨passes, congrArg Store.objects store⟩))
        hshaken fun key hkey => ?_
      rw [List.append_nil] at hkey
      exact (condemned key).mp hkey
    · have hletGo := h.updated drops condemned ho holds passes store
      refine ⟨fun calm => hshaken (h.calm calm), hletGo.ledger, fun key hne => ?others,
        .inr ⟨h.losing _ (drops.losing _ losing), hletGo⟩, fun key hkey => ?left⟩
      case others =>
        by_cases hkey : w.store.Condemns root scope caps (w.ledger.linked root.key) key
        · exact .inr ⟨hletGo.gone key hkey, hkey⟩
        · exact .inl (hletGo.kept key hkey hne)
      case left => exact .inl (hletGo.gone key (hkey.mono (List.nil_subset _)))

/-- Letting a root go deletes exactly what is condemned, leaves all else as it was, and takes from
    the root its finalizer and its record.  Cut short by a fault it has deleted nothing else and
    left the root as it was, unless the answer to the update of the root was lost: what labels
    tell is then found again. -/
theorem releaseRoot_ends (name : ',' ∉ root.name.toList) (rootNs : ',' ∉ root.ns.toList)
    (alone : w.Alone) (filed : w.store.Filed)
    (children : ∀ key ∈ w.ledger.linked root.key, key.kind ∈ Kind.children)
    (scope : Option (Roster String)) (caps : Capabilities) :
    (releaseRoot root scope caps).Ends w (fun _ w' => w.LetGo root scope caps w')
      fun _ w' => w.CutShort root scope caps w' := by
  have hforgot : Forgot w root { w with ledger := w.ledger.forget root.key } :=
    ⟨alone, id, fun _ h => h, rfl, rfl⟩
  show ((call (.get root.key)).bind _).Ends { w with ledger := w.ledger.forget root.key } _ _
  refine ends_read (s := w.store.countRead) hforgot.alone rfl rfl ?read ?unread
  case unread =>
    exact fun w' e shaken keeps =>
      hforgot.cutShort keeps.drops shaken fun key hkey => absurd hkey List.not_mem_nil
  case read =>
    intro v keeps
    have hv : Forgot w root v :=
      ⟨keeps.alone, fun calm => (keeps.calm calm).1, keeps.losing, keeps.ledger, keeps.objects⟩
    dsimp only
    cases ho : Table.get? w.store.objects root.key with
    | none => exact hv.letGo fun o hstored => absurd (ho.symm.trans hstored) nofun
    | some o =>
      show (if Finalizer.holds o.metadata = true then _ else Pass.done 0).Ends v _ _
      by_cases holds : Finalizer.holds o.metadata = true
      · rw [if_pos holds]
        cases scope with
        | none =>
          -- nothing is condemned without a scope
          refine ends_letGo hv (World.Keeps.refl hv.alone).drops (fun key => ?_) ho holds 0
          refine iff_of_false List.not_mem_nil ?_
          rintro ⟨_, _, _, _, hscope, _⟩
          exact absurd hscope nofun
        | some namespaces =>
          have hcondemned : ∀ key, v.store.Reaches root o.metadata (w.ledger.linked root.key)
              namespaces caps key ↔ w.store.Condemns root (some namespaces) caps
                (w.ledger.linked root.key) key := fun key =>
            (Store.reaches_of_objects hv.objects).trans
              (Store.condemns_iff ho holds children key).symm
          refine Ends.bind ((ends_deleteLinked name rootNs hv.alone (filed.of_objects hv.objects)
            o.metadata _ namespaces caps).mono ?_ ?_)
          · rintro n x ⟨keys, drops, hkeys⟩
            exact ends_letGo hv drops (fun key => (hkeys key).trans (hcondemned key)) ho holds n
          · rintro e x ⟨shaken, keys, drops, hkeys⟩
            exact hv.cutShort drops shaken fun key hkey => (hcondemned key).mp (hkeys key hkey)
      · rw [if_neg holds]
        refine hv.letGo fun p hp => ?_
        obtain rfl := Option.some.inj (ho.symm.trans hp)
        exact Bool.eq_false_iff.mpr holds

end Pass

/-! ## §3. Another try -/

/-- What labels tell is gone after another try that is not cut short. -/
theorem World.CutShort.retried {w v u : World} {root : Root} {scope : Option (Roster String)}
    {caps : Capabilities} (first : w.CutShort root scope caps v)
    (second : v.LetGo root scope caps u) {key : Key}
    (condemned : w.store.Condemns root scope caps [] key) :
    Table.get? u.store.objects key = none := by
  by_cases still : v.store.Condemns root scope caps (v.ledger.linked root.key) key
  · exact second.gone key still
  · rcases first.left key condemned with hgone | hleft
    · rw [second.kept key still condemned.ne_root]
      exact hgone
    · exact absurd (hleft.mono (List.nil_subset _)) still

/-- A root that is on its way out, with two namespaces on record. -/
def recordedRoot : Root := ⟨.schedulerInstall, "pool", "default", "u-1"⟩

/-- An object that is linked to it. -/
def linkedObject (name ns : String) : Object :=
  { metadata := { name := some name, ns := some ns, labels := some recordedRoot.linkLabels }
    data := .obj [] }

/-- The root, two linked objects in namespaces on record and in the scope, one of which the ledger
    knows, and one in a namespace that is neither. -/
def recordedWorld (disturbances : List Disturbance) : World where
  store := { objects := [
    (recordedRoot.key,
      { metadata :=
          { name := some "pool", ns := some "default"
            annotations := some [("kept", "yes"), (Finalizer.recordKey, "labs, old")]
            finalizers := some ["first", Finalizer.name, "last"] }
        data := .obj [("spec", .obj [])] }),
    (⟨.service, "labs", "pool-proxy"⟩, linkedObject "pool-proxy" "labs"),
    (⟨.service, "sims", "pool-proxy"⟩, linkedObject "pool-proxy" "sims"),
    (⟨.service, "free", "pool-proxy"⟩, linkedObject "pool-proxy" "free")], version := 7 }
  ledger := [(recordedRoot.key, [(⟨.service, "sims", "pool-proxy"⟩, false)])]
  disturbances

/-- How letting it go ends under disturbances. -/
def recordedEnd (ds : List Disturbance) : Except PassError Nat × World :=
  (Pass.releaseRoot recordedRoot (some ["sims"]) {}).run World.handle (recordedWorld ds)

theorem run_recordedWorld {ds : List Disturbance} {ended : Except PassError Nat}
    (h : (recordedEnd ds).1 = ended) :
    (Pass.releaseRoot recordedRoot (some ["sims"]) {}).run World.handle (recordedWorld ds)
      = (ended, (recordedEnd ds).2) :=
  Prod.ext h rfl

/-- The second deletion fails. -/
def secondFails : List Disturbance := [{ call := .delete, nth := 2, strike := .api "down" }]

/-- How another try ends after that. -/
def secondTry : Except PassError Nat × World :=
  (Pass.releaseRoot recordedRoot (some ["sims"]) {}).run World.handle (recordedEnd secondFails).2

theorem recordedWorld_filed : (recordedWorld []).store.Filed :=
  Store.filed_of_entries (by decide +kernel) (by decide +kernel)

theorem recordedEnd_filed : (recordedEnd secondFails).2.store.Filed :=
  Store.filed_of_entries (by decide +kernel) (by decide +kernel)

theorem secondFails_alone : (recordedWorld secondFails).Alone := by
  intro d hd
  rw [List.mem_singleton.mp hd]
  trivial

/-- Undisturbed, the root is let go.  Where the second deletion fails, the first one was done, and
    another try deletes what the first one has left. -/
theorem releaseRoot_ends_recordedWorld :
    ((recordedEnd []).1 = .ok 2 ∧
      (recordedWorld []).LetGo recordedRoot (some ["sims"]) {} (recordedEnd []).2) ∧
    (recordedEnd secondFails).1
        = .error (.store (.api ⟨.service, "sims", "pool-proxy"⟩ "down")) ∧
      (recordedWorld secondFails).CutShort recordedRoot (some ["sims"]) {}
        (recordedEnd secondFails).2 ∧
      Table.get? (recordedEnd secondFails).2.store.objects ⟨.service, "labs", "pool-proxy"⟩
        = none ∧
    secondTry.1 = .ok 1 ∧
      ∀ key, (recordedWorld secondFails).store.Condemns recordedRoot (some ["sims"]) {} [] key →
        Table.get? secondTry.2.store.objects key = none := by
  have hname : ',' ∉ recordedRoot.name.toList := by decide
  have hns : ',' ∉ recordedRoot.ns.toList := by decide
  have hdone : (recordedEnd []).1 = .ok 2 := by decide +kernel
  have hcut : (recordedEnd secondFails).1
      = .error (.store (.api ⟨.service, "sims", "pool-proxy"⟩ "down")) := by decide +kernel
  have hagain : secondTry.1 = .ok 1 := by decide +kernel
  have hletGo : (recordedWorld []).LetGo recordedRoot (some ["sims"]) {} (recordedEnd []).2 := by
    have hcalm : (recordedWorld []).Calm := rfl
    have hends := Pass.releaseRoot_ends hname hns hcalm.alone recordedWorld_filed
      (by decide +kernel) (some ["sims"]) {}
    exact hends.of_ok (run_recordedWorld hdone)
  have hcutShort : (recordedWorld secondFails).CutShort recordedRoot (some ["sims"]) {}
      (recordedEnd secondFails).2 := by
    have hends := Pass.releaseRoot_ends hname hns secondFails_alone recordedWorld_filed
      (by decide +kernel) (some ["sims"]) {}
    exact hends.of_error (run_recordedWorld hcut)
  -- the ledger has dropped the root by now, and the second try goes by the labels
  have hsecond : (recordedEnd secondFails).2.LetGo recordedRoot (some ["sims"]) {} secondTry.2 := by
    have hends := Pass.releaseRoot_ends hname hns (Pass.alone_run _ secondFails_alone)
      recordedEnd_filed (by decide +kernel) (some ["sims"]) {}
    exact hends.of_ok (Prod.ext hagain rfl)
  exact ⟨⟨hdone, hletGo⟩, hcut, hcutShort, by decide +kernel, hagain,
    fun _ condemned => hcutShort.retried hsecond condemned⟩

end Converge
