/-
  Converge.Proofs.Pass.History — edits of a spec leave nothing behind.

  The merge never removes members it does not know, and never touches a deployment's selector or
  a role binding's role.  Still an object that only this controller wrote is in the end what the
  latest child under its key asks for: objects under one key sit in one seat, and laying a body
  over another one of the same seat gives the body.

  Main statements:
    * `Faces.isBuilt_lay` — the same for any list of children in common seats.
    * `Pass.applyRounds_latest` — whatever sequence of specs was applied, every key holds the
      body and the labels of the latest child under it.
-/
import Converge.Proofs.Children.Seats
import Converge.Proofs.Pass.Parts

namespace Converge

/-! ## §1. Children in common seats -/

namespace Child

/-- The last child of a list under a key. -/
def latest? (cs : List Child) (key : Key) : Option Child := cs.reverse.find? fun c => c.key = key

theorem latest?_cons (c : Child) (cs : List Child) (key : Key) :
    latest? (c :: cs) key = (latest? cs key).or (if c.key = key then some c else none) := by
  unfold latest?
  rw [List.reverse_cons, List.find?_append, List.find?_singleton]
  simp

theorem latest?_eq_none {cs : List Child} {key : Key} (h : latest? cs key = none) :
    ∀ c ∈ cs, c.key ≠ key := by
  intro c hc
  have hno := List.find?_eq_none.mp h c (List.mem_reverse.mpr hc)
  simpa using hno

/-- Two children would be built with the same labels, and in bodies of the same frame. -/
def Alike (b c : Child) : Prop := b.managedLabels = c.managedLabels ∧ b.body.frame = c.body.frame

/-- There is no object yet, or one that was built for a child alike. -/
def Unspoilt (c : Child) (o : Option Object) : Prop :=
  o = none ∨ ∃ b p, b.Proper ∧ Alike b c ∧ o = some p ∧ b.IsBuilt p

theorem isBuilt_of_unspoilt {c : Child} (hc : c.Proper) {o : Option Object} (h : c.Unspoilt o) :
    c.IsBuilt (c.applied o) := by
  rcases h with rfl | ⟨b, p, hb, alike, rfl, built⟩
  · exact c.isBuilt_created
  · exact Child.isBuilt_applied hb hc alike.1 alike.2 built

end Child

/-- Children are applied in order, to nothing or to what is left of children alike: every key
    ends with the labels and the body of the latest child. -/
theorem Faces.isBuilt_lay {cs : List Child} (proper : ∀ c ∈ cs, c.Proper)
    (alike : ∀ b ∈ cs, ∀ c ∈ cs, b.key = c.key → b.Alike c) {F : Faces}
    (unspoilt : ∀ c ∈ cs, c.Unspoilt (F c.key)) :
    ∀ b ∈ cs, ∃ c o, Child.latest? cs b.key = some c ∧
      F.lay cs b.key = some o ∧ c.IsBuilt o := by
  induction cs generalizing F with
  | nil => exact fun b hb => absurd hb List.not_mem_nil
  | cons d cs ih =>
    have hd : d.Proper := proper d (by simp)
    have hbuilt : d.IsBuilt (d.applied (F d.key)) :=
      Child.isBuilt_of_unspoilt hd (unspoilt d (by simp))
    -- what the first child leaves is unspoilt for all children after it
    have hrest : ∀ c ∈ cs, c.Unspoilt (F.turn d.key (d.applied (F d.key)) c.key) := by
      intro c hc
      by_cases hk : d.key = c.key
      · rw [← hk, Faces.turn_self]
        have halike := alike d (by simp) c (List.mem_cons_of_mem _ hc) hk
        exact .inr ⟨d, _, hd, halike, rfl, hbuilt⟩
      · rw [Faces.turn_of_ne _ hk]
        exact unspoilt c (List.mem_cons_of_mem _ hc)
    have htail := ih (fun c hc => proper c (List.mem_cons_of_mem _ hc))
      (fun b hb c hc => alike b (List.mem_cons_of_mem _ hb) c (List.mem_cons_of_mem _ hc)) hrest
    intro b hb
    rw [Faces.lay_cons, Child.latest?_cons]
    cases hl : Child.latest? cs b.key with
    | some c =>
      -- a later child has the key, and so the last word
      have hmem : c ∈ cs := List.mem_reverse.mp (List.mem_of_find?_eq_some hl)
      have hkey : c.key = b.key := by simpa using List.find?_some hl
      obtain ⟨c', o, hlatest, hface, hc⟩ := htail c hmem
      rw [hkey, hl] at hlatest
      rw [hkey] at hface
      exact ⟨c', o, hlatest, hface, hc⟩
    | none =>
      -- the key is not written again
      have helse := Child.latest?_eq_none hl
      have hbd : b = d := by
        rcases List.mem_cons.mp hb with h | h
        · exact h
        · exact absurd rfl (helse b h)
      subst hbd
      refine ⟨b, b.applied (F b.key), ?_, ?_, hbuilt⟩
      · rw [if_pos rfl]
        rfl
      · rw [Faces.lay_of_not_mem _ helse, Faces.turn_self]

/-! ## §2. Rounds -/

/-- A spec of a root and the kinds that are served when it is applied. -/
structure Round where
  spec : RootSpec
  caps : Capabilities

/-- The children a round builds. -/
def Round.children (root : Root) (r : Round) : List Child :=
  (r.spec.withDefaults root.name root.ns).children root r.caps

/-- Apply the children of rounds, one round after the other. -/
def Pass.applyRounds (root : Root) : List Round → Pass Unit
  | [] => pure ()
  | r :: rest => do
    let _ ← applyAll root.key (r.children root) {}
    applyRounds root rest

theorem Round.children_proper (root : Root) (rounds : List Round) :
    ∀ c ∈ rounds.flatMap (Round.children root), c.Proper := by
  intro c hc
  obtain ⟨r, _, hc⟩ := List.mem_flatMap.mp hc
  exact RootSpec.children_proper root r.caps _ c hc

/-- Where nothing disturbs them, rounds succeed, and lay all their children over what was there. -/
theorem Pass.ends_applyRounds {w : World} (calm : w.Calm) (on : w.cancelled = false) (root : Root)
    (rounds : List Round) :
    (Pass.applyRounds root rounds).Ends w
      (fun _ w' => w'.store.face = w.store.face.lay (rounds.flatMap (Round.children root)))
      (fun _ _ => False) := by
  induction rounds generalizing w with
  | nil => exact rfl
  | cons r rest ih =>
    have hproper : ∀ c ∈ r.children root, c.Proper := RootSpec.children_proper root r.caps _
    refine Ends.bind ((ends_applyAll calm.alone hproper root.key {}).mono ?_ ?_)
    · rintro _ v ⟨_, leads⟩
      obtain ⟨hcalm, hsame⟩ := leads.calm calm
      refine (ih hcalm (hsame.trans on)).mono ?_ fun _ _ h => h
      intro _ u hu
      rw [hu, leads.face, List.flatMap_cons, Faces.lay_append]
    · rintro e v ⟨hoff, _⟩
      have hstopped := hoff calm
      rw [on] at hstopped
      exact Bool.noConfusion hstopped

/-- Specs of a root that leave names to their defaults are applied in sequence, each with the
    kinds that are served by then, where nothing was before and nobody else writes.  All of it
    succeeds, and every key that was ever built then has exactly the body and the labels with
    which the latest child under it would be created. -/
theorem Pass.applyRounds_latest {w : World} (calm : w.Calm) (on : w.cancelled = false)
    {root : Root} {rounds : List Round} (kind : ∀ r ∈ rounds, r.spec.kind = root.kind)
    (names : ∀ r ∈ rounds, r.spec.NamesLeft)
    (absent : ∀ b ∈ rounds.flatMap (Round.children root),
      Table.get? w.store.objects b.key = none) :
    ∃ w', (Pass.applyRounds root rounds).run World.handle w = (.ok (), w') ∧
      ∀ b ∈ rounds.flatMap (Round.children root), ∃ c o,
        Child.latest? (rounds.flatMap (Round.children root)) b.key = some c ∧
        Table.get? w'.store.objects b.key = some o ∧
        o.data = c.toObject.data ∧ o.metadata.labels = c.toObject.metadata.labels := by
  obtain ⟨_, w', hrun, hface⟩ := (Pass.ends_applyRounds calm on root rounds).exists_run
  refine ⟨w', hrun, ?_⟩
  intro b hb
  have halike : ∀ b ∈ rounds.flatMap (Round.children root),
      ∀ c ∈ rounds.flatMap (Round.children root), b.key = c.key → b.Alike c := by
    intro b hb c hc key
    obtain ⟨q, hq, hb⟩ := List.mem_flatMap.mp hb
    obtain ⟨r, hr, hc⟩ := List.mem_flatMap.mp hc
    exact RootSpec.alike_of_key ((kind q hq).trans (kind r hr).symm) (names q hq) (names r hr)
      hb hc key
  have hunspoilt : ∀ c ∈ rounds.flatMap (Round.children root),
      c.Unspoilt (w.store.face c.key) := by
    intro c hc
    refine .inl ?_
    show (Table.get? w.store.objects c.key).map Object.face = none
    rw [absent c hc]
    rfl
  obtain ⟨c, o, hlatest, ho, hdata, hlabels⟩ :=
    Faces.isBuilt_lay (Round.children_proper root rounds) halike hunspoilt b hb
  rw [← hface] at ho
  obtain ⟨p, hp, rfl⟩ := Store.exists_of_face ho
  exact ⟨c, p, hlatest, hp, hdata, hlabels⟩

/-- One decode deployment with a memory limit, then a decode stage without: the two share a key. -/
def stagedLater : List Round := [
  ⟨.simulator { resources := some { limits := some [("memory", "1Gi")] } }, {}⟩,
  ⟨.simulator { decode := some { enabled := true } }, {}⟩]

/-- The root of these specs. -/
def stagedRoot : Root := ⟨.simulatorDeployment, "sim", "default", "u-1"⟩

theorem applyRounds_latest_stagedLater :
    ∃ w', (Pass.applyRounds stagedRoot stagedLater).run World.handle {} = (.ok (), w') ∧
      ∀ b ∈ stagedLater.flatMap (Round.children stagedRoot), ∃ c o,
        Child.latest? (stagedLater.flatMap (Round.children stagedRoot)) b.key = some c ∧
        Table.get? w'.store.objects b.key = some o ∧
        o.data = c.toObject.data ∧ o.metadata.labels = c.toObject.metadata.labels := by
  have hkind : ∀ r ∈ stagedLater, r.spec.kind = stagedRoot.kind := by
    simp [stagedLater, stagedRoot, RootSpec.kind]
  have hnames : ∀ r ∈ stagedLater, r.spec.NamesLeft := by
    simp [stagedLater, RootSpec.NamesLeft]
  have hcalm : World.Calm {} := rfl
  exact Pass.applyRounds_latest hcalm rfl hkind hnames fun _ _ => rfl

end Converge
