/-
  Converge.Proofs.Children.Linked — a child is linked to its root and to no other.

  A deletion destroys what the selector of its root finds.  The selector is a text, cut again at its
  commas and equals signs, and names may have equals signs, too.  A child outside the namespace of
  its root is found by that root, created or brought in line, and created by no other one; a child
  at home is found by none and has its root as its only owner.

  Main statements:
    * `Root.not_selects` — no root finds an object without its first link label.
    * `Child.Hangs.key_eq_of_links` — a created child is linked to no other root.
    * `RootSpec.children_attached` — how the children of any spec are found and owned.
-/
import Converge.Proofs.Amend.Applied
import Converge.Proofs.Pass.Isolation

namespace Converge

/-! ## §1. What a root finds -/

namespace Root

/-- The selector of the root finds the object. -/
def Selects (root : Root) (o : Object) : Prop :=
  Selector.accepts root.linkSelector (o.metadata.labels.getD []) = true

theorem links_iff {root : Root} {o : Object} : root.Links o ↔
    Table.get? (o.metadata.labels.getD []) root.kind.linkKeys.1 = some root.name ∧
      Table.get? (o.metadata.labels.getD []) root.kind.linkKeys.2 = some root.ns :=
  Tags.links_iff (t := o.tags)

theorem selects_iff_links {root : Root} (writable : root.Writable) {o : Object} :
    root.Selects o ↔ root.Links o := accepts_iff_links writable.name writable.ns

/-- No root finds an object without its first link label, not even one with commas in its name. -/
theorem not_selects {root : Root} {o : Object}
    (unlabelled : Table.get? (o.metadata.labels.getD []) root.kind.linkKeys.1 = none) :
    ¬ root.Selects o := by
  intro selects
  have hkeys := linkKeys_writable root.kind root.kind.linkKeys.1 List.mem_cons_self
  unfold Selects linkSelector at selects
  rw [linkLabels_eq] at selects
  obtain ⟨w, hw⟩ := Selector.asks_first hkeys.1 hkeys.2 selects
  rw [unlabelled] at hw
  exact absurd hw nofun

end Root

/-! ## §2. What a child is linked to -/

namespace Child.Hangs

variable {root : Root} {c : Child}

/-- No managed label is one of a link to a root of the other kind. -/
theorem managed_other (h : c.Hangs root) {kind : RootKind} (other : kind ≠ root.kind) :
    Table.get? c.managedLabels kind.linkKeys.1 = none := by
  by_cases home : c.ns = root.ns
  · exact (h.managed_home home kind).1
  · have hmanaged : c.managedLabels = Table.insertAll c.labels root.linkLabels := by
      unfold managedLabels
      rw [h.link, Root.linkIn, if_neg home]
    have hapart : root.kind.linkKeys.1 ≠ kind.linkKeys.1 ∧
        root.kind.linkKeys.2 ≠ kind.linkKeys.1 := by
      cases hroot : root.kind <;> cases kind <;> simp_all [RootKind.linkKeys]
    rw [hmanaged, Root.linkLabels_eq]
    simp [Table.insertAll, hapart, (h.free kind).1]

/-- A child that was just created is linked to no other root. -/
theorem key_eq_of_links (h : c.Hangs root) (foreign : c.ns ≠ root.ns) {other : Root}
    (links : other.Links c.toObject) : other.key = root.key := by
  by_cases kind : other.kind = root.kind
  · -- of one kind, the labels have room for one name and one namespace
    have hown : root.Links c.toObject := Root.links_iff.mpr (h.managed_foreign foreign)
    exact Tags.Links.key_eq (t := c.toObject.tags) kind links hown
  · have hlabel : Table.get? c.managedLabels other.kind.linkKeys.1 = some other.name :=
      (Root.links_iff.mp links).1
    rw [h.managed_other kind] at hlabel
    exact absurd hlabel nofun

/-- Whatever it was before, what a child was applied to is linked to the root. -/
theorem links_applied (h : c.Hangs root) (proper : c.Proper) (foreign : c.ns ≠ root.ns)
    (cur : Option Object) : root.Links (c.applied cur) := by
  obtain ⟨hname, hns⟩ := h.managed_foreign foreign
  have hline := (Child.inLine_applied proper cur).labels
  exact Root.links_iff.mpr ⟨hline _ _ hname, hline _ _ hns⟩

end Child.Hangs

/-! ## §3. How children are found and owned -/

/-- The owners of an object. -/
def Object.owners (o : Object) : List OwnerReference := o.metadata.owners.getD []

/-- The child is found by its root if it is outside the namespace of the root, and is owned by it
    otherwise. -/
structure Child.Attached (root : Root) (c : Child) : Prop where
  /-- Created or brought in line, it is found by its root, and created by no other root. -/
  foreign : c.ns ≠ root.ns → root.Selects c.toObject ∧
    (∀ cur, root.Selects (c.applied (some cur))) ∧
    (∀ other : Root, other.Writable → other.key ≠ root.key → ¬ other.Selects c.toObject) ∧
    c.toObject.owners = []
  /-- Created at home, it is found by no root and has one owner. -/
  home : c.ns = root.ns → (∀ other : Root, ¬ other.Selects c.toObject) ∧
    c.toObject.owners = [root.ownerReference]

theorem Child.Hangs.attached {root : Root} {c : Child} (h : c.Hangs root) (proper : c.Proper)
    (writable : root.Writable) : c.Attached root where
  foreign := by
    intro foreign
    refine ⟨?created, ?amended, ?others, ?owners⟩
    case created =>
      exact (Root.selects_iff_links writable).mpr (Root.links_iff.mpr (h.managed_foreign foreign))
    case amended =>
      exact fun cur => (Root.selects_iff_links writable).mpr
        (h.links_applied proper foreign (some cur))
    case others =>
      intro other hother apart selects
      exact apart (h.key_eq_of_links foreign ((Root.selects_iff_links hother).mp selects))
    case owners =>
      unfold Object.owners Child.toObject
      rw [h.link, Root.linkIn, if_neg foreign]
      rfl
  home := by
    intro home
    refine ⟨fun other => Root.not_selects (h.managed_home home other.kind).1, ?owners⟩
    case owners =>
      unfold Object.owners Child.toObject
      rw [h.link, Root.linkIn, if_pos home]
      rfl

/-- The children of a root of either kind, whatever its spec asks for and whatever the cluster
    serves.  A child outside the namespace of the root is found by the selector of the root, both
    created and as any object under its key becomes when it is brought in line; created it is found
    by no other root and has no owner.  A child in the namespace of the root is created with the
    root as its one owner, and no root finds it. -/
theorem RootSpec.children_attached {root : Root} (writable : root.Writable) (caps : Capabilities)
    (s : RootSpec) {c : Child} (child : c ∈ s.children root caps) : c.Attached root :=
  (s.children_hang root caps c child).attached (s.children_proper root caps c child) writable

/-- A SchedulerInstall whose simulators are in another namespace. -/
def spreadInstall : RootSpec := .install
  { schedulerNamespace := "default", simulatorNamespace := "sims"
    picker := some { enabled := true } }

/-- Its root, which has an equals sign in its name. -/
def spreadRoot : Root := ⟨.schedulerInstall, "pool=blue", "default", "u-1"⟩

/-- A root of the same name in another namespace, which is that of the simulators. -/
def spreadTwin : Root := ⟨.schedulerInstall, "pool=blue", "sims", "u-2"⟩

/-- The proxy is found by its root and not by the twin, which is in the namespace of the proxy; the
    service account of the picker is at home, and found by neither. -/
theorem children_attached_spreadInstall :
    spreadRoot.Writable ∧ spreadTwin.key ≠ spreadRoot.key ∧
    (∃ proxy ∈ spreadInstall.children spreadRoot {}, proxy.ns ≠ spreadRoot.ns ∧
      spreadRoot.Selects proxy.toObject ∧
      (∀ cur, spreadRoot.Selects (proxy.applied (some cur))) ∧
      ¬ spreadTwin.Selects proxy.toObject ∧ proxy.toObject.owners = []) ∧
    ∃ account ∈ spreadInstall.children spreadRoot {}, account.ns = spreadRoot.ns ∧
      ¬ spreadRoot.Selects account.toObject ∧ ¬ spreadTwin.Selects account.toObject ∧
      account.toObject.owners = [spreadRoot.ownerReference] := by
  have hroot : spreadRoot.Writable := ⟨by decide, by decide⟩
  have htwin : spreadTwin.Writable := ⟨by decide, by decide⟩
  have hapart : spreadTwin.key ≠ spreadRoot.key := by decide
  refine ⟨hroot, hapart, ⟨_, List.mem_of_getElem? (i := 6) rfl, by decide, ?_⟩,
    ⟨_, List.mem_of_getElem? (i := 0) rfl, rfl, ?_⟩⟩
  · obtain ⟨created, amended, others, owners⟩ :=
      (RootSpec.children_attached hroot {} spreadInstall (List.mem_of_getElem? (i := 6) rfl)).foreign
        (by decide)
    exact ⟨created, amended, others spreadTwin htwin hapart, owners⟩
  · obtain ⟨none, owners⟩ :=
      (RootSpec.children_attached hroot {} spreadInstall (List.mem_of_getElem? (i := 0) rfl)).home
        rfl
    exact ⟨none spreadRoot, none spreadTwin, owners⟩

end Converge
