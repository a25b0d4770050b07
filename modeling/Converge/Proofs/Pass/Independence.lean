/-
  Converge.Proofs.Pass.Independence — passes over two roots do not get in each other's way.

  Two passes take turns on one store, one version counter and one ledger, one request at a time.
  As long as no child of one root has the key of a child of the other, each pass goes on as if it
  were alone: every request of one leaves the part of the other alone.

  Main statements:
    * `World.handle_within` — a request that stays in a part changes nothing outside it.
    * `Abreast.takeTurns` — whose turn it is makes no difference.
    * `RootResource.independent` — the same for the passes over two roots of either kind, which
      end as they do alone and one after the other.
-/
import Converge.Proofs.Pass.Beside
import Converge.Proofs.Store.Answers

namespace Converge

/-! ## §1. What a request changes -/

/-- Nothing changes from one world to the other but what is under some keys, and what is listed for
    some roots and told of them. -/
structure World.Within (keys : Key → Prop) (roots : Root → Prop) (w v : World) : Prop where
  disturbances : v.disturbances = w.disturbances
  cancelled : v.cancelled = w.cancelled
  lacking : v.lacking = w.lacking
  objects : ∀ k, ¬ keys k → Table.get? v.store.objects k = Table.get? w.store.objects k
  listed : ∀ key, (∀ r, roots r → r.key ≠ key) → Table.get? v.ledger key = Table.get? w.ledger key
  told : ∀ r, ¬ roots r → v.told r = w.told r

/-- Nothing but what is in a part changes. -/
abbrev World.WithinPart (P : Part) : World → World → Prop := World.Within P.owns (· = P.root)

namespace World.Within

variable {keys : Key → Prop} {roots : Root → Prop} {w v u : World}

theorem refl (w : World) : w.Within keys roots w :=
  ⟨rfl, rfl, rfl, fun _ _ => rfl, fun _ _ => rfl, fun _ _ => rfl⟩

theorem trans (h : w.Within keys roots v) (g : v.Within keys roots u) : w.Within keys roots u where
  disturbances := g.disturbances.trans h.disturbances
  cancelled := g.cancelled.trans h.cancelled
  lacking := g.lacking.trans h.lacking
  objects k hk := (g.objects k hk).trans (h.objects k hk)
  listed key hkey := (g.listed key hkey).trans (h.listed key hkey)
  told r hr := (g.told r hr).trans (h.told r hr)

theorem mono {keys' : Key → Prop} {roots' : Root → Prop} (h : w.Within keys roots v)
    (hkeys : ∀ k, keys k → keys' k) (hroots : ∀ r, roots r → roots' r) :
    w.Within keys' roots' v where
  disturbances := h.disturbances
  cancelled := h.cancelled
  lacking := h.lacking
  objects k hk := h.objects k (mt (hkeys k) hk)
  listed key hkey := h.listed key fun r hr => hkey r (hroots r hr)
  told r hr := h.told r (mt (hroots r) hr)

end World.Within

/-- A call changes what is under the key it writes, and nothing else. -/
theorem Store.get?_perform {P : Part} {c : StoreCall} (stays : (Request.call c).Stays P)
    (s : Store) {k : Key} (foreign : ¬ P.owns k) :
    Table.get? (s.perform c).2.objects k = Table.get? s.objects k := by
  -- a write changes what is under its own key, which is in the part
  have hput : ∀ key o (t : Store), P.owns key → t.objects = Table.insert s.objects key o →
      Table.get? t.objects k = Table.get? s.objects k := by
    intro key o t owned ht
    have hne : key ≠ k := fun h => foreign (h ▸ owned)
    rw [ht, Table.get?_insert, if_neg hne]
  generalize hreply : s.perform c = reply
  obtain ⟨reply, t⟩ := reply
  cases reply with
  | error e => rw [Store.perform_error hreply]
  | ok a =>
    cases c with
    | get key | list kind ns selector =>
      injection hreply with _ ht
      rw [← ht]
      rfl
    | create key o => exact hput key _ t stays (perform_create_ok hreply).2
    | update key o =>
      obtain ⟨_, _, _, ht⟩ := perform_update_ok hreply
      exact hput key _ t stays ht
    | updateStatus key o =>
      obtain ⟨_, _, _, ht⟩ := perform_updateStatus_ok hreply
      exact hput key _ t stays ht
    | delete key =>
      have hne : key ≠ k := fun h => foreign (h ▸ stays)
      have ht := (perform_delete s key).2
      rw [hreply] at ht
      show Table.get? t.objects k = _
      rw [ht, Table.get?_erase, if_neg hne]

/-- The request tells the ledger nothing but what concerns a root. -/
def Request.Concerns (root : Key) : Request → Prop
  | .record r _ _ => r = root
  | .forget r => r = root
  | _ => True

theorem Request.Stays.concerns {P : Part} {r : Request} (h : r.Stays P) :
    r.Concerns P.root.key := by
  cases r with
  | record | forget => exact h
  | call | capabilities | isCancelled | clock | linkedChildren | announce => trivial

/-- The ledger keeps its entries of other roots. -/
theorem World.get?_ledger_handle {root other : Key} {q : Request} (own : q.Concerns root)
    (w : World) (ne : root ≠ other) :
    Table.get? (World.handle q w).2.ledger other = Table.get? w.ledger other := by
  cases q with
  | record r child owned =>
    obtain rfl : r = root := own
    show Table.get? (Table.insert _ r _) other = _
    rw [Table.get?_insert, if_neg ne]
  | forget r =>
    obtain rfl : r = root := own
    show Table.get? (Table.erase _ r) other = _
    rw [Table.get?_erase, if_neg ne]
  | call | capabilities | isCancelled | clock | linkedChildren | announce => rfl

/-- In a calm world a request that stays in a part changes nothing outside it. -/
theorem World.handle_within {P : Part} {r : Request} (stays : r.Stays P) {w : World}
    (calm : w.Calm) : w.WithinPart P (World.handle r w).2 := by
  cases r with
  | call c =>
    rw [World.handle_call calm]
    exact ⟨rfl, rfl, rfl, fun k hk => w.store.get?_perform stays hk, fun _ _ => rfl, fun _ _ => rfl⟩
  | capabilities | isCancelled | clock | linkedChildren => exact .refl w
  | record | forget =>
    exact ⟨rfl, rfl, rfl, fun _ _ => rfl,
      fun key hkey => World.get?_ledger_handle stays.concerns w (hkey P.root rfl), fun _ _ => rfl⟩
  | announce root event =>
    have hroot : root = P.root := stays
    refine ⟨rfl, rfl, rfl, fun _ _ => rfl, fun _ _ => rfl, fun other hother => ?_⟩
    have hne : root ≠ other := fun h => hother (h ▸ hroot)
    show ((w.events ++ [(root, event)]).filter fun e => e.1 = other).map (·.2) = _
    rw [List.filter_append, List.map_append]
    simp [hne, World.told]

/-! ## §2. Parts that have nothing in common -/

/-- No key is in both parts. -/
def Part.Apart (P Q : Part) : Prop := ∀ k, P.owns k → ¬ Q.owns k

theorem Part.Apart.symm {P Q : Part} (h : P.Apart Q) : Q.Apart P := fun k hQ hP => h k hP hQ

/-- What changes in one part leaves the other alone. -/
theorem World.WithinPart.beside {P Q : Part} (apart : P.Apart Q) {w v : World}
    (h : w.WithinPart P v) : w.Beside Q v where
  disturbances := h.disturbances
  cancelled := h.cancelled
  lacking := h.lacking
  objects k hk := h.objects k fun hP => apart k hP hk
  listed := h.listed _ fun r hr heq => apart _ P.owns_root (by rw [← hr, heq]; exact Q.owns_root)
  told := h.told _ fun heq => apart _ P.owns_root (by rw [← heq]; exact Q.owns_root)

/-! ## §3. Taking turns -/

/-- Which of two passes makes its next request, unless it has ended; or time passes. -/
inductive Turn where
  | first
  | second
  | later (clock : String)

/-- How two passes ended, and the world then. -/
structure Pair (α β : Type) where
  first : Except PassError α
  second : Except PassError β
  traced : Traced

namespace Pass

variable {α β : Type}

/-- The next request of a pass, unless it has ended. -/
def advance : Pass α → Traced → Pass α × Traced
  | .ask r next, s => (next (Scene.traced.handle r s).1, (Scene.traced.handle r s).2)
  | p, s => (p, s)

/-- Two passes take turns.  When the turns are over the first one goes on alone, and then the
    second. -/
def takeTurns : List Turn → Pass α → Pass β → Traced → Pair α β
  | [], p, q, s =>
    let (e, t) := p.run Scene.traced.handle s
    let (f, u) := q.run Scene.traced.handle t
    ⟨e, f, u⟩
  | .first :: turns, p, q, s => takeTurns turns (p.advance s).1 q (p.advance s).2
  | .second :: turns, p, q, s => takeTurns turns p (q.advance s).1 (q.advance s).2
  | .later clock :: turns, p, q, s =>
    takeTurns turns p q { s with world := { s.world with clock } }

/-- A pass that has ended. -/
def ofEnd : Except PassError α → Pass α
  | .ok a => .done a
  | .error e => .fail e

variable {P : Part} {p : Pass α} {V : View} {e : Except PassError α} {w v : World}

/-- What others do outside its part does not matter to a pass. -/
theorem Makes.beside (h : p.Makes P w e V) (others : w.Beside P v) : p.Makes P v e V := by
  cases p with
  | done a => exact ⟨h.1, h.2.beside others⟩
  | fail f => exact ⟨h.1, h.2.beside others⟩
  | ask r next => exact fun u hu => h u ((Scene.beside P).further others hu)

theorem Makes.of_ofEnd {f : Except PassError α} (h : (ofEnd f).Makes P w e V) :
    f = e ∧ w.LooksBut P V := by
  cases f with
  | ok a => exact h
  | error f => exact h

end Pass

/-- Two passes on their way, each of which keeps to its part and is bound for an end and a look
    that were settled at the start. -/
structure Abreast {α β : Type} (P Q : Part) (e : Except PassError α) (f : Except PassError β)
    (V U : View) (start : World) (p : Pass α) (q : Pass β) (s : Traced) : Prop where
  first : p.Makes P s.world e V
  second : q.Makes Q s.world f U
  calm : s.world.Calm
  within : start.Within (fun k => P.owns k ∨ Q.owns k) (fun r => r = P.root ∨ r = Q.root) s.world
  answered : ∀ x ∈ s.log, x.fault? = none

namespace Abreast

variable {α β : Type} {P Q : Part} {e : Except PassError α} {f : Except PassError β} {V U : View}
  {start : World} {p : Pass α} {q : Pass β} {s : Traced}

theorem symm (h : Abreast P Q e f V U start p q s) : Abreast Q P f e U V start q p s where
  first := h.second
  second := h.first
  calm := h.calm
  within := h.within.mono (fun _ => Or.symm) fun _ => Or.symm
  answered := h.answered

/-- A request of the first pass. -/
theorem advance_first (apart : P.Apart Q) (h : Abreast P Q e f V U start p q s) :
    Abreast P Q e f V U start (p.advance s).1 q (p.advance s).2 := by
  cases p with
  | done a => exact h
  | fail e => exact h
  | ask r next =>
    obtain ⟨⟨hstays, hanswered⟩, hnext⟩ := h.first s.world ((Scene.beside P).still s.world)
    -- the request stays in the first part, so that the second pass does not notice it
    have hwithin := World.handle_within hstays h.calm
    have hbeside : s.world.Beside Q (World.handle r s.world).2 := hwithin.beside apart
    refine ⟨hnext, h.second.beside hbeside, ?_, ?_, ?_⟩
    · exact hwithin.disturbances.trans h.calm
    · exact h.within.trans (hwithin.mono (fun _ => .inl) fun _ => .inl)
    · intro x hx
      rcases List.mem_append.mp hx with hx | hx
      · exact h.answered x hx
      · rw [List.mem_singleton.mp hx]
        exact hanswered

theorem advance_second (apart : P.Apart Q) (h : Abreast P Q e f V U start p q s) :
    Abreast P Q e f V U start p (q.advance s).1 (q.advance s).2 :=
  (h.symm.advance_first apart.symm).symm

/-- Time passes. -/
theorem later (h : Abreast P Q e f V U start p q s) (clock : String) :
    Abreast P Q e f V U start p q { s with world := { s.world with clock } } where
  first := h.first.beside ⟨rfl, rfl, rfl, fun _ _ => rfl, rfl, rfl⟩
  second := h.second.beside ⟨rfl, rfl, rfl, fun _ _ => rfl, rfl, rfl⟩
  calm := h.calm
  within := h.within.trans
    ⟨rfl, rfl, rfl, fun _ _ => rfl, fun _ _ => rfl, fun _ _ => rfl⟩
  answered := h.answered

/-- The first pass goes on to its end. -/
theorem run_first (apart : P.Apart Q) (h : Abreast P Q e f V U start p q s) :
    Abreast P Q e f V U start (Pass.ofEnd (p.run Scene.traced.handle s).1) q
      (p.run Scene.traced.handle s).2 := by
  induction p generalizing s with
  | done a => exact h
  | fail e => exact h
  | ask r next ih => exact ih _ (h.advance_first apart)

/-- Whatever the turns, both passes come to their ends, and each part looks as it was bound to. -/
theorem takeTurns (apart : P.Apart Q) (h : Abreast P Q e f V U start p q s) (turns : List Turn) :
    ∃ t, Pass.takeTurns turns p q s = ⟨e, f, t⟩ ∧ t.world.LooksBut P V ∧ t.world.LooksBut Q U ∧
      Abreast P Q e f V U start (Pass.ofEnd e) (Pass.ofEnd f) t := by
  induction turns generalizing p q s with
  | nil =>
    -- the turns are over: the first pass goes on to its end, and then the second
    have hfirst := h.run_first apart
    have hboth := (hfirst.symm.run_first apart.symm).symm
    obtain ⟨he, hV⟩ := hboth.first.of_ofEnd
    obtain ⟨hf, hU⟩ := hboth.second.of_ofEnd
    refine ⟨_, ?_, hV, hU, ?_⟩
    · show (⟨_, _, _⟩ : Pair α β) = _
      rw [he, hf]
    · rw [he, hf] at hboth
      exact hboth
  | cons turn turns ih =>
    cases turn with
    | first => exact ih (h.advance_first apart)
    | second => exact ih (h.advance_second apart)
    | later clock => exact ih (h.later clock)

end Abreast

/-! ## §4. Passes that run alone -/

/-- Without turns one pass runs after the other. -/
theorem Pass.takeTurns_nil {α β : Type} (p : Pass α) (q : Pass β) (s : Traced) :
    (takeTurns [] p q s).traced.world
      = (q.run World.handle (p.run World.handle s.world).2).2 := by
  show (q.run Scene.traced.handle (p.run Scene.traced.handle s).2).2.world = _
  rw [(q.run_traced _).2, (p.run_traced s).2]

theorem Pass.Makes.run {α : Type} {P : Part} {p : Pass α} {w : World} {e : Except PassError α}
    {V : View} (h : p.Makes P w e V) :
    (p.run World.handle w).1 = e ∧ (p.run World.handle w).2.LooksBut P V := by
  have hended := Amid.among h (among_run (S := .beside P) p w)
  change Ended _ _ (p.run World.handle w).1 (p.run World.handle w).2 at hended
  generalize p.run World.handle w = ended at hended
  obtain ⟨r, v⟩ := ended
  cases r with
  | ok a => exact hended
  | error f => exact hended

/-- The same is stored and listed in two worlds, but for versions and, on two roots, transition
    times. -/
structure World.SameBut (a b : Root) (w v : World) : Prop where
  other : ∀ k, k ≠ a.key → k ≠ b.key → w.store.face k = v.store.face k
  first : (w.store.face a.key).map Object.timeless = (v.store.face a.key).map Object.timeless
  second : (w.store.face b.key).map Object.timeless = (v.store.face b.key).map Object.timeless
  listed : ∀ root, Table.get? w.ledger root = Table.get? v.ledger root

/-- Two worlds that look the same from a part, but for times. -/
theorem World.LooksBut.agree {P : Part} {V : View} {w v : World} (h : w.LooksBut P V)
    (g : v.LooksBut P V) :
    (∀ k, P.owns k → k ≠ P.root.key → w.store.face k = v.store.face k) ∧
      (w.store.face P.root.key).map Object.timeless
        = (v.store.face P.root.key).map Object.timeless ∧
      Table.get? w.ledger P.root.key = Table.get? v.ledger P.root.key ∧
      w.told P.root = v.told P.root := by
  obtain ⟨F, hF, hw⟩ := h
  obtain ⟨G, hG, hv⟩ := g
  refine ⟨?_, ?_, hw.listed.trans hv.listed.symm, hw.told.trans hv.told.symm⟩
  · intro k hk hne
    rw [hw.face k hk, hv.face k hk]
    exact (hF.other k hne).trans (hG.other k hne).symm
  · rw [hw.face _ P.owns_root, hv.face _ P.owns_root]
    exact hF.root.trans hG.root.symm

/-- Two ways of taking turns leave the same. -/
theorem Abreast.sameBut {α β : Type} {P Q : Part} {e : Except PassError α}
    {f : Except PassError β} {V U : View} {start : World} {s t : Traced}
    (h : Abreast P Q e f V U start (Pass.ofEnd e) (Pass.ofEnd f) s)
    (g : Abreast P Q e f V U start (Pass.ofEnd e) (Pass.ofEnd f) t) :
    World.SameBut P.root Q.root s.world t.world := by
  obtain ⟨hP, hProot, hPlisted, -⟩ := h.first.of_ofEnd.2.agree g.first.of_ofEnd.2
  obtain ⟨hQ, hQroot, hQlisted, -⟩ := h.second.of_ofEnd.2.agree g.second.of_ofEnd.2
  refine ⟨?_, hProot, hQroot, ?_⟩
  · intro k ha hb
    by_cases hk : P.owns k ∨ Q.owns k
    · rcases hk with hk | hk
      · exact hP k hk ha
      · exact hQ k hk hb
    · -- nobody has touched the key
      unfold Store.face
      rw [h.within.objects k hk, g.within.objects k hk]
  · intro root
    by_cases ha : P.root.key = root
    · rw [← ha]
      exact hPlisted
    by_cases hb : Q.root.key = root
    · rw [← hb]
      exact hQlisted
    have hother : ∀ r, r = P.root ∨ r = Q.root → r.key ≠ root := by
      rintro r (rfl | rfl)
      · exact ha
      · exact hb
    rw [h.within.listed root hother, g.within.listed root hother]

/-! ## §5. Two roots -/

namespace RootResource

/-- A pass over a root that runs alone: its end and the world then. -/
def alone (settings : Settings) (r : RootResource) (w : World) :
    Except PassError NextLook × World := (r.pass settings).run World.handle w

/-- Two roots that are not the same and have no child in common have nothing in common. -/
theorem apart_part {r s : RootResource} {caps : Capabilities} (distinct : r.root.key ≠ s.root.key)
    (disjoint : ∀ b ∈ r.children caps, ∀ c ∈ s.children caps, b.key ≠ c.key) :
    (r.part caps).Apart (s.part caps) := by
  rintro k (rfl | ⟨b, hb, rfl⟩) (hk | ⟨c, hc, hk⟩)
  · exact distinct hk
  · exact c.key_ne_root _ hk
  · exact b.key_ne_root _ hk
  · exact disjoint b hb c hc hk.symm

/-- Passes over two roots of either kind, neither of which is being deleted, take turns as they
    like while time passes, on a store that holds both roots and that nobody else writes to.  The
    keys of their children are disjoint.  Then each of them ends as it does alone; no call of
    either meets a fault; what is told of each root is what is told of it when its pass runs
    alone, and of no other root anything is told; and what is stored and listed in the end is the
    same as after the two passes in turn, in either order, but for versions and, on the two roots,
    transition times. -/
theorem independent {settings : Settings} {r s : RootResource}
    (aliveFirst : r.metadata.deletionTimestamp = none)
    (aliveSecond : s.metadata.deletionTimestamp = none) {w : World} (calm : w.Calm)
    (hereFirst : (Table.get? w.store.objects r.root.key).isSome = true)
    (hereSecond : (Table.get? w.store.objects s.root.key).isSome = true)
    (distinct : r.root.key ≠ s.root.key)
    (disjoint : ∀ b ∈ r.children w.capabilities, ∀ c ∈ s.children w.capabilities, b.key ≠ c.key)
    (turns : List Turn) :
    ∃ e f t, Pass.takeTurns turns (r.pass settings) (s.pass settings) ⟨w, []⟩ = ⟨e, f, t⟩ ∧
      (r.alone settings w).1 = e ∧ (s.alone settings w).1 = f ∧
      (∀ x ∈ t.log, x.fault? = none) ∧
      t.world.told r.root = (r.alone settings w).2.told r.root ∧
      t.world.told s.root = (s.alone settings w).2.told s.root ∧
      (∀ root, root ≠ r.root → root ≠ s.root → t.world.told root = w.told root) ∧
      World.SameBut r.root s.root t.world (s.alone settings (r.alone settings w).2).2 ∧
      World.SameBut r.root s.root t.world (r.alone settings (s.alone settings w).2).2 := by
  -- both ends and both looks are settled before the turns are
  obtain ⟨e, V, hr⟩ := makes_pass settings aliveFirst calm hereFirst
  obtain ⟨f, U, hs⟩ := makes_pass settings aliveSecond calm hereSecond
  have apart := apart_part distinct disjoint
  have hstart : Abreast (r.part w.capabilities) (s.part w.capabilities) e f V U w
      (r.pass settings) (s.pass settings) ⟨w, []⟩ :=
    ⟨hr, hs, calm, .refl w, fun x hx => absurd hx List.not_mem_nil⟩
  obtain ⟨t, ht, hV, hU, hend⟩ := hstart.takeTurns apart turns
  -- the two orders are two more ways of taking turns
  obtain ⟨t₁, ht₁, -, -, hend₁⟩ := hstart.takeTurns apart []
  obtain ⟨t₂, ht₂, -, -, hend₂⟩ := hstart.symm.takeTurns apart.symm []
  have horder₁ : t₁.world = (s.alone settings (r.alone settings w).2).2 := by
    have h := Pass.takeTurns_nil (r.pass settings) (s.pass settings) ⟨w, []⟩
    rwa [ht₁] at h
  have horder₂ : t₂.world = (r.alone settings (s.alone settings w).2).2 := by
    have h := Pass.takeTurns_nil (s.pass settings) (r.pass settings) ⟨w, []⟩
    rwa [ht₂] at h
  refine ⟨e, f, t, ht, hr.run.1, hs.run.1, hend.answered, ?_, ?_, ?_, ?_, ?_⟩
  · exact (hV.agree hr.run.2).2.2.2
  · exact (hU.agree hs.run.2).2.2.2
  · exact fun root ha hb => hend.within.told root fun h => h.elim ha hb
  · rw [← horder₁]
    exact hend.sameBut hend₁
  · rw [← horder₂]
    exact hend.sameBut hend₂.symm

end RootResource

/-- A SimulatorDeployment in the namespace where that SchedulerInstall has its simulators. -/
def sharedSimulator : RootResource := .simulator
  { metadata := { name := some "sim", ns := some "sims", uid := some "u-2" }
    spec := {} }

/-- A store with both roots. -/
def sharedWorld : World := { linkedWorld with
  store := linkedWorld.store.seed sharedSimulator.root.key
    { metadata := { name := some "sim", ns := some "sims", uid := some "u-2" }, data := .obj [] } }

/-- The passes go on request by request until the next day, when the second one goes ahead. -/
def inTurn : List Turn :=
  (List.replicate 8 [.first, .second]).flatten ++
    .later "2024-05-02T00:00:00Z" :: List.replicate 8 .second

theorem sharedWorld_disjoint : ∀ b ∈ linkedInstall.children sharedWorld.capabilities,
    ∀ c ∈ sharedSimulator.children sharedWorld.capabilities, b.key ≠ c.key := by
  decide +kernel

theorem independent_sharedWorld :
    ∃ t, Pass.takeTurns inTurn (linkedInstall.pass linkedSettings)
        (sharedSimulator.pass linkedSettings) ⟨sharedWorld, []⟩
          = ⟨.ok (.after 300), .ok (.after 300), t⟩ ∧
      (∀ x ∈ t.log, x.fault? = none) ∧
      t.world.told linkedInstall.root
        = (linkedInstall.alone linkedSettings sharedWorld).2.told linkedInstall.root ∧
      t.world.told sharedSimulator.root
        = (sharedSimulator.alone linkedSettings sharedWorld).2.told sharedSimulator.root ∧
      World.SameBut linkedInstall.root sharedSimulator.root t.world
        (sharedSimulator.alone linkedSettings
          (linkedInstall.alone linkedSettings sharedWorld).2).2 ∧
      World.SameBut linkedInstall.root sharedSimulator.root t.world
        (linkedInstall.alone linkedSettings
          (sharedSimulator.alone linkedSettings sharedWorld).2).2 := by
  have hcalm : sharedWorld.Calm := rfl
  have hfirst : (linkedInstall.alone linkedSettings sharedWorld).1 = .ok (.after 300) := rfl
  have hsecond : (sharedSimulator.alone linkedSettings sharedWorld).1 = .ok (.after 300) := rfl
  obtain ⟨e, f, t, hrun, he, hf, hanswered, htoldFirst, htoldSecond, -, hthen, hthen'⟩ :=
    @RootResource.independent linkedSettings linkedInstall sharedSimulator rfl rfl _ hcalm rfl rfl
      (by decide +kernel) sharedWorld_disjoint inTurn
  subst he hf
  rw [hfirst, hsecond] at hrun
  exact ⟨t, hrun, hanswered, htoldFirst, htoldSecond, hthen, hthen'⟩

end Converge
