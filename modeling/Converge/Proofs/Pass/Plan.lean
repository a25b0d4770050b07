/-
  Converge.Proofs.Pass.Plan — one pass over a root of either kind.

  The passes over the two kinds of root take the same steps on different data.  A plan is that
  data.  What a pass over a plan leaves is said once, as a function of what the store held before:
  the root is held, the children are laid over what was there, then the root is reported on.

  Main statements:
    * `Plan.ends_steps` — what a pass leaves, whole or cut short at any call.
    * `RootResource.exists_steps` — the pass over either kind of root is the pass over a plan.
-/
import Converge.Proofs.Pass.Parts

namespace Converge

/-! ## §1. Plans -/

/-- No child has the kind of a root. -/
theorem Child.key_ne_root (c : Child) (root : Root) : c.key ≠ root.key := by
  intro heq
  have hkind : c.body.kind = root.kind.kind := congrArg Key.kind heq
  cases hb : c.body <;> cases hr : root.kind <;> rw [hb, hr] at hkind <;> cases hkind

/-- What the pass over a root works on once its spec has defaults. -/
structure Plan (τ : Type) where
  root : Root
  /-- Where the root has linked children. -/
  linked : Roster String
  children : Capabilities → List Child
  form : StatusForm τ
  text : ReadyText
  generation : Option Int64
  change : List Observation → τ → τ

namespace Plan

variable {τ : Type}

/-- The deployments of a list of children whose readiness is waited for. -/
def tracked (cs : List Child) : List Key := (cs.filter (·.tracked)).map Child.key

/-- What is to be reported in view of observations. -/
def reportOf (p : Plan τ) (seen : List Observation) : Report τ where
  form := p.form
  change := p.change seen
  verdict := Verdict.ofObservations p.text seen
  generation := p.generation

/-- The steps of a pass. -/
def steps [DecidableEq τ] (settings : Settings) (p : Plan τ) : Pass NextLook := do
  Pass.holdIfLinked settings p.root p.linked
  let caps ← Pass.request .capabilities
  let (tally, observations) ← Pass.applyAndObserve p.root (p.children caps)
  let verdict := Verdict.ofObservations p.text observations
  let now ← Pass.request .clock
  let outcome ←
    Pass.writeStatus p.form p.root.key p.generation verdict now (p.change observations)
  Pass.finish settings p.root tally outcome

/-- What the lemmas about passes ask of a plan under settings and capabilities. -/
structure Sound (p : Plan τ) (settings : Settings) (caps : Capabilities) : Prop where
  lawful : ∀ seen, (p.reportOf seen).Lawful
  plain : settings.features.crossNamespaceCleanup = true → ∀ ns ∈ p.linked, Finalizer.Plain ns
  proper : ∀ c ∈ p.children caps, c.Proper
  once : ((p.children caps).map Child.key).Nodup

/-! ## §2. What a pass leaves -/

/-- What is held once the root is held and the children are applied. -/
def laid (p : Plan τ) (settings : Settings) (caps : Capabilities) (F : Faces) (o : Object) :
    Faces :=
  (F.turn p.root.key (o.heldUnder settings p.linked)).lay (p.children caps)

/-- What is to be reported when the store holds `G`. -/
def report (p : Plan τ) (caps : Capabilities) (G : Faces) : Report τ :=
  p.reportOf ((tracked (p.children caps)).map fun k => Observation.ofObject k (G k))

/-- The root after the report of a pass, if its status can be read. -/
def reported? [DecidableEq τ] (p : Plan τ) (settings : Settings) (caps : Capabilities)
    (now : String) (F : Faces) (o : Object) : Option Object :=
  (p.report caps (p.laid settings caps F o)).report? now (o.heldUnder settings p.linked)

/-- What a pass may leave when it is cut short: nothing is done, or the root is held and some
    children are applied, or all is done. -/
def Partway [DecidableEq τ] (p : Plan τ) (settings : Settings) (caps : Capabilities)
    (now : String) (F : Faces) (o : Object) (G : Faces) : Prop :=
  G = F ∨
    (∃ es, es <+: p.children caps ∧
      G = (F.turn p.root.key (o.heldUnder settings p.linked)).lay es) ∨
    ∃ q, p.reported? settings caps now F o = some q ∧
      G = (p.laid settings caps F o).turn p.root.key q

theorem apart (p : Plan τ) (caps : Capabilities) : ∀ c ∈ p.children caps, c.key ≠ p.root.key :=
  fun c _ => c.key_ne_root p.root

theorem laid_root (p : Plan τ) (settings : Settings) (caps : Capabilities) (F : Faces)
    (o : Object) : p.laid settings caps F o p.root.key = some (o.heldUnder settings p.linked) := by
  unfold laid
  rw [Faces.lay_of_not_mem _ (p.apart caps), Faces.turn_self]

/-- What is reported does not depend on the root. -/
theorem report_turn (p : Plan τ) (caps : Capabilities) (G : Faces) (q : Object) :
    p.report caps (G.turn p.root.key q) = p.report caps G := by
  unfold report
  refine congrArg p.reportOf (List.map_congr_left ?_)
  intro k hk
  obtain ⟨c, hc, rfl⟩ := List.mem_map.mp hk
  have hne : p.root.key ≠ c.key := Ne.symm (p.apart caps c (List.mem_filter.mp hc).1)
  rw [Faces.turn_of_ne _ hne]

variable [DecidableEq τ]

/-- Where a pass that is not cut short leads: all children are noted, and the root is reported on
    once they are applied. -/
def Done (p : Plan τ) (settings : Settings) (w : World) (o : Object) (look : NextLook)
    (w' : World) : Prop :=
  look = .after settings.requeueSecs ∧
    (w.Calm → p.children w.capabilities ≠ [] → w.cancelled = false) ∧
    ∃ q, p.reported? settings w.capabilities w.clock w.store.face o = some q ∧
      w.Leads (w.ledger.notedAll p.root.key (p.children w.capabilities))
        ((p.laid settings w.capabilities w.store.face o).turn p.root.key q) w'

/-- Where a pass that is cut short leads.  The status of the root cannot be read, and all else is
    done; or there was a struck call or a shutdown, and some first children are noted. -/
def Cut (p : Plan τ) (settings : Settings) (w : World) (o : Object) (e : PassError)
    (w' : World) : Prop :=
  (e = .unreadableStatus ∧ p.reported? settings w.capabilities w.clock w.store.face o = none ∧
    w.Leads (w.ledger.notedAll p.root.key (p.children w.capabilities))
      (p.laid settings w.capabilities w.store.face o) w') ∨
  ((w.Calm → w.cancelled = true) ∧ ∃ ds G, ds <+: p.children w.capabilities ∧
    p.Partway settings w.capabilities w.clock w.store.face o G ∧
    w.Leads (w.ledger.notedAll p.root.key ds) G w')

/-- Every pass over a root that is there ends in one of these ways. -/
theorem ends_steps {p : Plan τ} (settings : Settings) {w : World} (alone : w.Alone)
    (proper : ∀ c ∈ p.children w.capabilities, c.Proper) {o : Object}
    (here : w.store.face p.root.key = some o) :
    (p.steps settings).Ends w (p.Done settings w o) (p.Cut settings w o) := by
  refine Pass.Ends.bind ((Pass.ends_holdIfLinked alone here settings p.linked).mono ?_ ?_)
  case refine_2 =>
    -- cut short before any child is applied
    rintro e v ⟨shaken, h⟩
    refine .inr ⟨fun calm => absurd calm shaken, [], ?_⟩
    rcases h with h | h
    · exact ⟨_, List.nil_prefix, .inl rfl, h⟩
    · exact ⟨_, List.nil_prefix, .inr (.inl ⟨[], List.nil_prefix, rfl⟩), h⟩
  intro _ v leads
  have hcaps : v.capabilities = w.capabilities := leads.capabilities
  -- in a calm world it is the shutdown at the start that counts
  have hcalm : (v.Calm → v.cancelled = true) → w.Calm → w.cancelled = true := by
    intro h calm
    obtain ⟨hv, hsame⟩ := leads.calm calm
    rw [← hsame]
    exact h hv
  show ((Pass.applyAndObserve p.root (p.children v.capabilities)).bind fun seen =>
    (Pass.request .clock).bind fun now =>
      (Pass.writeStatus p.form p.root.key p.generation (Verdict.ofObservations p.text seen.2) now
        (p.change seen.2)).bind fun outcome =>
          Pass.finish settings p.root seen.1 outcome).Ends v _ _
  rw [hcaps]
  refine Pass.Ends.bind
    ((Pass.ends_applyAndObserve leads.alone proper p.root).mono ?_ ?_)
  case refine_2 =>
    -- cut short among the children
    rintro e u ⟨hoff, ds, es, hds, hes, h⟩
    rw [leads.ledger, leads.face] at h
    exact .inr ⟨hcalm hoff, ds, _, hds.trans hes, .inr (.inl ⟨es, hes, rfl⟩), leads.trans h⟩
  rintro ⟨tally, seen⟩ x ⟨hon, hseen, hx⟩
  rw [leads.ledger, leads.face] at hx
  rw [leads.face] at hseen
  subst hseen
  have hwx := leads.trans hx
  have hroot : x.store.face p.root.key = some (o.heldUnder settings p.linked) := by
    rw [hwx.face]
    exact p.laid_root settings _ _ o
  -- what is reported is decided by what the store holds once all children are applied
  let r := p.report w.capabilities (p.laid settings w.capabilities w.store.face o)
  have hreport := Pass.ends_report hwx.alone r hroot settings tally
  rw [hwx.ledger, hwx.face, hwx.clock] at hreport
  refine hreport.mono ?_ ?_
  · rintro look y ⟨hlook, q, hq, hy⟩
    refine ⟨hlook, ?_, q, hq, hwx.trans hy⟩
    intro calm some_child
    rw [← (leads.calm calm).2]
    exact hon some_child
  · rintro e y (⟨rfl, hnone, hy⟩ | ⟨shaken, hy⟩)
    · exact .inl ⟨rfl, hnone, hwx.trans hy⟩
    · have hoff : w.Calm → w.cancelled = true := fun calm => absurd (hwx.calm calm).1 shaken
      rcases hy with hy | ⟨q, hq, hy⟩
      · exact .inr ⟨hoff, _, _, List.prefix_rfl, .inr (.inl ⟨_, List.prefix_rfl, rfl⟩),
          hwx.trans hy⟩
      · exact .inr ⟨hoff, _, _, List.prefix_rfl, .inr (.inr ⟨q, hq, rfl⟩), hwx.trans hy⟩

theorem Cut.told {p : Plan τ} {settings : Settings} {w w' : World} {o : Object} {e : PassError}
    (h : p.Cut settings w o e w') (events : List (Root × Event)) :
    p.Cut settings w o e { w' with events } := by
  rcases h with ⟨he, hnone, leads⟩ | ⟨hoff, ds, G, hds, hG, leads⟩
  · exact .inl ⟨he, hnone, leads.told events⟩
  · exact .inr ⟨hoff, ds, G, hds, hG, leads.told events⟩

theorem ends_pass {p : Plan τ} (settings : Settings) {w : World} (alone : w.Alone)
    (proper : ∀ c ∈ p.children w.capabilities, c.Proper) {o : Object}
    (here : w.store.face p.root.key = some o) (root : Root) :
    (Pass.warned root (p.steps settings)).Ends w (p.Done settings w o) (p.Cut settings w o) :=
  (ends_steps settings alone proper here).warned root fun _ _ _ h => h.told _

end Plan

/-! ## §3. The two passes -/

namespace RootResource

/-- The metadata of a root object. -/
def metadata : RootResource → Metadata
  | install r => r.metadata
  | simulator r => r.metadata

/-- The spec of a root object. -/
def spec : RootResource → RootSpec
  | install r => .install r.spec
  | simulator r => .simulator r.spec

/-- The spec of a root object, with its defaults. -/
def defaulted (r : RootResource) : RootSpec := r.spec.withDefaults r.root.name r.root.ns

/-- The children of a root object. -/
def children (r : RootResource) (caps : Capabilities) : List Child :=
  r.defaulted.children r.root caps

/-- The namespaces into which a root object links children. -/
def linked : RootResource → Roster String
  | install r => (r.spec.withDefaults (install r).root.name (install r).root.ns).linkedNamespaces
      (install r).root
  | simulator _ => []

end RootResource

/-- The conditions in the stored data of a root of a kind, if its status can be read. -/
def RootKind.conditions? (kind : RootKind) (data : Json) : Option (List Condition) :=
  match kind with
  | schedulerInstall => (Install.statusForm.stored? data).map Install.Status.conditions
  | simulatorDeployment => (Simulator.statusForm.stored? data).map Simulator.Status.conditions

/-- The namespaces a spec names. -/
def RootSpec.namespaces : RootSpec → List String
  | install s => [s.schedulerNamespace, s.simulatorNamespace]
  | simulator _ => []

/-- The plan of a SchedulerInstall. -/
def Install.plan (root : Root) (r : Install.Resource) : Plan Install.Status where
  root := root
  linked := (r.spec.withDefaults root.name root.ns).linkedNamespaces root
  children := (r.spec.withDefaults root.name root.ns).children root
  form := Install.statusForm
  text := Install.readyText
  generation := r.metadata.generation
  change _ := id

/-- The plan of a SimulatorDeployment. -/
def Simulator.plan (root : Root) (r : Simulator.Resource) : Plan Simulator.Status where
  root := root
  linked := []
  children := (r.spec.withDefaults root.name).children root
  form := Simulator.statusForm
  text := Simulator.readyText
  generation := r.metadata.generation
  change := (r.spec.withDefaults root.name).summarize root

theorem Install.steps_eq (settings : Settings) (root : Root) {r : Install.Resource}
    (alive : r.metadata.deletionTimestamp = none) :
    Install.steps settings root r
      = (Pass.ofCheck (r.spec.withDefaults root.name root.ns).validate).bind fun _ =>
          (Install.plan root r).steps settings := by
  unfold Install.steps
  rw [alive]
  rfl

theorem Simulator.steps_eq (settings : Settings) (root : Root) {r : Simulator.Resource}
    (alive : r.metadata.deletionTimestamp = none) :
    Simulator.steps settings root r
      = (Pass.ofCheck (r.spec.withDefaults root.name).validate).bind fun _ =>
          (Simulator.plan root r).steps settings := by
  have hnothing : Pass.holdIfLinked settings root [] = .done () := by
    unfold Pass.holdIfLinked
    rw [List.isEmpty_nil, Bool.not_true, Bool.and_false]
    rfl
  unfold Simulator.steps
  rw [alive]
  show _ = (Pass.ofCheck _).bind fun _ => (Pass.holdIfLinked settings root []).bind _
  rw [hnothing]
  rfl

/-- A namespace that a root links children into is one that its spec names, other than its own. -/
theorem Install.named_of_linked {root : Root} {s : Install.Spec} {ns : String}
    (h : ns ∈ (s.withDefaults root.name root.ns).linkedNamespaces root) :
    ns ∈ (RootSpec.install s).namespaces ∧ ns ≠ "" ∧ ns ≠ root.ns := by
  obtain ⟨hmem, hne⟩ := List.mem_filter.mp ((Roster.mem_ofList _ ns).mp h)
  simp only [ne_eq, Bool.and_eq_true, decide_eq_true_eq] at hne
  refine ⟨?_, hne⟩
  rcases List.mem_cons.mp hmem with h | h
  · change ns = orText s.schedulerNamespace root.ns at h
    unfold orText at h
    split at h
    · exact absurd h hne.2
    · rw [h]
      exact List.mem_cons_self
  · rw [List.mem_singleton.mp h]
    exact List.mem_cons_of_mem _ List.mem_cons_self

theorem Install.plain_linked {root : Root} {s : Install.Spec}
    (plain : ∀ ns ∈ (RootSpec.install s).namespaces, ',' ∉ ns.toList ∧ Text.trim ns = ns) :
    ∀ ns ∈ (s.withDefaults root.name root.ns).linkedNamespaces root, Finalizer.Plain ns := by
  intro ns hns
  obtain ⟨hnamed, hsome, _⟩ := Install.named_of_linked hns
  obtain ⟨hfree, htrim⟩ := plain ns hnamed
  exact ⟨hfree, htrim, hsome⟩

theorem RootResource.named_of_linked {r : RootResource} {ns : String} (h : ns ∈ r.linked) :
    ns ∈ r.spec.namespaces ∧ ns ≠ "" ∧ ns ≠ r.root.ns := by
  cases r with
  | install r => exact Install.named_of_linked h
  | simulator r => exact absurd h List.not_mem_nil

theorem RootResource.plain_linked (r : RootResource)
    (plain : ∀ ns ∈ r.spec.namespaces, ',' ∉ ns.toList ∧ Text.trim ns = ns) :
    ∀ ns ∈ r.linked, Finalizer.Plain ns := by
  intro ns hns
  obtain ⟨hnamed, hsome, _⟩ := RootResource.named_of_linked hns
  obtain ⟨hfree, htrim⟩ := plain ns hnamed
  exact ⟨hfree, htrim, hsome⟩

/-- A plan is what a pass over a root object works on. -/
structure RootResource.Plans {τ : Type} (r : RootResource) (p : Plan τ) : Prop where
  root : p.root = r.root
  linked : p.linked = r.linked
  children : ∀ caps, p.children caps = r.children caps
  lawful : ∀ seen, (p.reportOf seen).Lawful
  conditions : ∀ data, (p.form.stored? data).map p.form.conditions
    = r.root.kind.conditions? data

/-- The pass over a root that is not being deleted checks the spec, and then takes the steps of
    a plan. -/
theorem RootResource.exists_steps (settings : Settings) {r : RootResource}
    (alive : r.metadata.deletionTimestamp = none) :
    ∃ (τ : Type) (_ : DecidableEq τ) (p : Plan τ), r.Plans p ∧
      r.pass settings = Pass.warned r.root
        ((Pass.ofCheck r.defaulted.validate).bind fun _ => p.steps settings) := by
  cases r with
  | install i =>
    refine ⟨_, inferInstance, Install.plan (RootResource.install i).root i, ?_,
      congrArg (Pass.warned _) (Install.steps_eq settings _ alive)⟩
    exact ⟨rfl, rfl, fun _ => rfl, fun _ => ⟨Install.statusForm_lawful, fun _ _ => rfl⟩,
      fun _ => rfl⟩
  | simulator i =>
    refine ⟨_, inferInstance, Simulator.plan (RootResource.simulator i).root i, ?_,
      congrArg (Pass.warned _) (Simulator.steps_eq settings _ alive)⟩
    exact ⟨rfl, rfl, fun _ => rfl, fun _ => ⟨Simulator.statusForm_lawful, fun _ _ => rfl⟩,
      fun _ => rfl⟩

/-- The pass over a root that is being deleted releases it. -/
theorem RootResource.pass_of_deleted (settings : Settings) {r : RootResource} {time : String}
    (deleted : r.metadata.deletionTimestamp = some time) :
    r.pass settings = Pass.warned r.root (Pass.release settings r.root r.linked) := by
  cases r with
  | install i =>
    have hdeleted : i.metadata.deletionTimestamp = some time := deleted
    show Pass.warned _ (Install.steps settings _ i) = _
    unfold Install.steps
    rw [hdeleted]
    rfl
  | simulator i =>
    have hdeleted : i.metadata.deletionTimestamp = some time := deleted
    show Pass.warned _ (Simulator.steps settings _ i) = _
    unfold Simulator.steps
    rw [hdeleted]
    rfl

theorem RootResource.Plans.proper {r : RootResource} {τ : Type} {p : Plan τ} (plans : r.Plans p)
    (caps : Capabilities) : ∀ c ∈ p.children caps, c.Proper := by
  rw [plans.children]
  exact RootSpec.children_proper _ caps r.defaulted

/-- The plan is sound when the children of the root have distinct keys. -/
theorem RootResource.exists_plan (settings : Settings) {r : RootResource}
    (alive : r.metadata.deletionTimestamp = none)
    (plain : settings.features.crossNamespaceCleanup = true →
      ∀ ns ∈ r.spec.namespaces, ',' ∉ ns.toList ∧ Text.trim ns = ns) :
    ∃ (τ : Type) (_ : DecidableEq τ) (p : Plan τ), p.root = r.root ∧
      (∀ caps, p.children caps = r.children caps) ∧
      (∀ caps, ((r.children caps).map Child.key).Nodup → p.Sound settings caps) ∧
      r.pass settings = Pass.warned r.root
        ((Pass.ofCheck r.defaulted.validate).bind fun _ => p.steps settings) := by
  obtain ⟨τ, _, p, plans, hpass⟩ := r.exists_steps settings alive
  refine ⟨τ, inferInstance, p, plans.root, plans.children, fun caps once => ?_, hpass⟩
  exact
    { lawful := plans.lawful
      plain := fun on => by
        rw [plans.linked]
        exact r.plain_linked (plain on)
      proper := plans.proper caps
      once := by
        rw [plans.children]
        exact once }

/-! ## §4. A small world -/

/-- A SchedulerInstall with its simulators, and so its proxy, in another namespace. -/
def linkedInstall : RootResource := .install
  { metadata := { name := some "pool", ns := some "default", uid := some "u-1" }
    spec := { simulatorNamespace := "sims" } }

/-- Cleanup across namespaces is on. -/
def linkedSettings : Settings := { features := { crossNamespaceCleanup := true } }

/-- A store with that root and nothing else. -/
def linkedWorld : World where
  store := { objects := [(linkedInstall.root.key,
    { metadata := { name := some "pool", ns := some "default", uid := some "u-1" }
      data := .obj [] })] }
  clock := "2024-05-01T00:00:00Z"

theorem linkedInstall_plain :
    ∀ ns ∈ linkedInstall.spec.namespaces, ',' ∉ ns.toList ∧ Text.trim ns = ns := by
  decide +kernel

theorem linkedInstall_once :
    ((linkedInstall.children linkedWorld.capabilities).map Child.key).Nodup := by
  decide +kernel

end Converge
