/-
  Converge.Proofs.Pass.Gated — a pass keeps to the kinds that the gate finds served.

  A call about a kind that the cluster does not serve is a fault, and a fault ends the pass.  Such
  kinds could come in through the children that are built, through the list of all kinds that a
  release goes by, and through the ledger, which may know children from before a kind vanished.

  Main statements:
    * `RootResource.only_served` — whatever else it is answered, a pass asks for no kind that the
      gate has found missing.
    * `RootResource.calls_served` — so it is in every run, on any store and ledger.
-/
import Converge.Proofs.Children.Served
import Converge.Proofs.Pass.Exchanges
import Converge.Proofs.Pass.HeldFirst

namespace Converge

/-! ## §1. Requests -/

/-- The gate finds these capabilities, if it is asked. -/
def Capabilities.Found (caps : Capabilities) : (r : Request) → r.Reply → Prop
  | .capabilities, found => found = caps
  | _, _ => True

/-- The request is no store call about a kind that is missing. -/
def Request.Served (caps : Capabilities) : Request → Prop
  | .call c => caps.supports c.key.kind = true
  | _ => True

section Served

variable {caps : Capabilities} (optional : ∀ k ∈ caps.missing, k.isOptional = true)

include optional

/-- Every cluster serves the kinds of roots. -/
theorem Root.key_served (root : Root) : caps.supports root.key.kind = true := by
  refine Capabilities.supports_plain optional ?_
  show root.kind.kind.isOptional = false
  cases root.kind <;> rfl

/-! ## §2. Passes -/

namespace Pass

theorem releases_served (root : Root) : Releases caps.Found (Request.Served caps) root where
  get := root.key_served optional
  capabilities := trivial
  isCancelled := trivial
  clock := trivial
  record _ _ := trivial
  forget := trivial
  report _ := root.key_served optional
  known := trivial
  update _ := root.key_served optional
  list := by
    rintro _ rfl kind ns selector hkind
    exact hkind
  delete := by
    rintro _ rfl key hkind
    exact hkind

end Pass

/-- As long as the gate finds only optional kinds missing, a pass over a root of either kind,
    whether it is being deleted or not, makes no store call about a kind that is missing.  Nothing
    is asked of the other answers: they may be of any store and of any ledger. -/
theorem RootResource.only_served (settings : Settings) (r : RootResource) :
    (r.pass settings).OnlyIf caps.Found (Request.Served caps) := by
  cases hdeleted : r.metadata.deletionTimestamp with
  | some time =>
    rw [r.pass_of_deleted settings hdeleted]
    exact (Pass.only_release (Pass.releases_served optional _) settings _).warned fun _ => trivial
  | none =>
    obtain ⟨τ, _, p, plans, hpass⟩ := r.exists_steps settings hdeleted
    rw [hpass]
    refine Pass.OnlyIf.warned ?_ fun _ => trivial
    cases r.defaulted.validate with
    | error e => trivial
    | ok _ =>
      have hroot := p.root.key_served optional
      refine (Pass.only_holdIfLinked hroot (fun _ => hroot) settings p.linked).bind fun _ => ?_
      have hcommon : Pass.Common p.root (Request.Served caps) :=
        ⟨(Pass.releases_served optional p.root).toSilent, fun _ => trivial⟩
      refine Plan.only_goOn hcommon ?_ settings
      -- children are built for what was found, and have kinds that are served
      rintro _ rfl c hc
      rw [plans.children] at hc
      have hkind := RootSpec.children_served optional _ r.defaulted c hc
      exact .of_key hkind (fun _ => hkind) fun _ => hkind

end Served

/-! ## §3. Runs -/

/-- Of a pass over a root of either kind, whether it is being deleted or not, no store call names a
    kind that the gate has found missing.  The pass runs on any store and with any ledger; before
    each of its requests others may write to the store and do what they like to the rest. -/
theorem RootResource.calls_served {caps : Capabilities}
    (optional : ∀ k ∈ caps.missing, k.isOptional = true) {r : RootResource} {settings : Settings}
    {w w' : World} {log : List Exchange} {e : Except PassError NextLook}
    (run : (r.pass settings).Among .traced ⟨w, []⟩ e ⟨w', log⟩)
    (found : ∀ x ∈ log, x.request = .capabilities → x.world.capabilities = caps)
    {x : Exchange} (mem : x ∈ log) {c : StoreCall} (called : x.request = .call c) :
    c.key.kind ∉ caps.missing := by
  have hfound : ∀ y ∈ log, caps.Found y.request y.reply := by
    rintro ⟨request, v⟩ hy
    cases request with
    | capabilities => exact found _ hy rfl
    | call | isCancelled | clock | record | forget | linkedChildren | announce => trivial
  have hserved := (only_served optional settings r).exchanged run
    (fun y hy => absurd hy List.not_mem_nil) hfound x mem
  rw [called] at hserved
  exact (caps.supports_eq_true_iff c.key.kind).mp hserved

/-- A SchedulerInstall that is being deleted, with its simulators in another namespace. -/
def leavingInstall : RootResource := .install
  { metadata := { name := some "pool", ns := some "default", uid := some "u-1"
                  deletionTimestamp := some "2024-05-01T00:00:00Z" }
    spec := { simulatorNamespace := "sims" } }

/-- The traffic policy that was applied for that root while there were such policies. -/
def stalePolicy : Key := ⟨.destinationRule, "sims", "pool-proxy-lb"⟩

/-- That root is held, its proxy and its policy are known, and policies are no longer served. -/
def leavingWorld : World where
  store := { objects := [
    (linkedProxy, { metadata := { name := some "pool-proxy", ns := some "sims" }, data := .null }),
    (leavingInstall.root.key,
      { metadata := { name := some "pool", ns := some "default", uid := some "u-1"
                      finalizers := some [Finalizer.name] }
        data := .obj [] })] }
  ledger := [(leavingInstall.root.key, [(linkedProxy, false), (stalePolicy, false)])]
  lacking := some [.destinationRule, .referenceGrant]

/-- What the release of that root has exchanged in the end. -/
def leavingEnd : Except PassError NextLook × Traced :=
  (leavingInstall.pass linkedSettings).run Scene.traced.handle ⟨leavingWorld, []⟩

/-- The proxy is deleted, and the policy is passed over. -/
theorem calls_served_leavingInstall :
    stalePolicy ∈ leavingWorld.ledger.linked leavingInstall.root.key ∧
      stalePolicy.kind ∈ leavingWorld.capabilities.missing ∧
      ∃ e w' log, (leavingInstall.pass linkedSettings).Among .traced ⟨leavingWorld, []⟩ e ⟨w', log⟩
        ∧ (∃ x ∈ log, x.request = .call (.delete linkedProxy)) ∧
        ∀ x ∈ log, ∀ c, x.request = .call c → c.key.kind ∉ leavingWorld.capabilities.missing := by
  refine ⟨by decide, by decide, leavingEnd.1, leavingEnd.2.world, leavingEnd.2.log,
    Pass.among_run (S := .traced) _ _, by decide +kernel, ?_⟩
  have hfound : ∀ x ∈ leavingEnd.2.log, x.request = .capabilities →
      x.world.capabilities = leavingWorld.capabilities := by decide +kernel
  intro x hx c called
  exact RootResource.calls_served leavingWorld.capabilities_optional
    (Pass.among_run (S := .traced) _ _) hfound hx called

end Converge
