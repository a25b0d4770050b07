/-
  Converge.Proofs.Children.Links — what the children of a root are linked to once applied.

  The labels of a link name one root of a kind, and no builder writes labels under their keys.  So
  a child that is applied outside the namespace of its root is linked to that root and to no other
  of its kind, whatever it was linked to before; a child that is applied at home keeps its links.

  Main statements:
    * `Tags.Links.key_eq` — an object is linked to one root of a kind.
    * `RootSpec.children_hang` — how the children of any spec hang on their root.
    * `Tagging.links_lay`, `Tagging.links_of_lay` — what the children of a pass are linked to.
-/
import Converge.Proofs.Pass.Tags

namespace Converge

/-! ## §1. Links -/

/-- The labels link what carries them to the root. -/
def Tags.Links (root : Root) (t : Tags) : Prop :=
  ∀ e ∈ root.linkLabels, Table.get? t.labels e.1 = some e.2

theorem Tags.links_iff {root : Root} {t : Tags} : t.Links root ↔
    Table.get? t.labels root.kind.linkKeys.1 = some root.name ∧
      Table.get? t.labels root.kind.linkKeys.2 = some root.ns := by
  unfold Links
  rw [Root.linkLabels_eq]
  simp

/-- The links of an object name one root of a kind. -/
theorem Tags.Links.key_eq {a b : Root} {t : Tags} (kind : a.kind = b.kind) (ha : t.Links a)
    (hb : t.Links b) : a.key = b.key := by
  obtain ⟨hname, hns⟩ := links_iff.mp ha
  obtain ⟨hname', hns'⟩ := links_iff.mp hb
  rw [← kind] at hname' hns'
  unfold Root.key
  rw [kind, Option.some.inj (hname.symm.trans hname'), Option.some.inj (hns.symm.trans hns')]

/-- What is under the key is linked to the root. -/
def Tagging.Links (T : Tagging) (root : Root) (key : Key) : Prop :=
  ∃ t, T key = some t ∧ t.Links root

/-! ## §2. Children -/

/-- The child hangs on the root as its namespace asks for, and no other label of it is one of a
    link. -/
structure Child.Hangs (root : Root) (c : Child) : Prop where
  link : c.link = root.linkIn c.ns
  free : ∀ kind : RootKind, Table.get? c.labels kind.linkKeys.1 = none ∧
    Table.get? c.labels kind.linkKeys.2 = none

namespace Child.Hangs

variable {root : Root} {c : Child}

theorem isOwned (h : c.Hangs root) : c.link.isOwned = decide (c.ns = root.ns) := by
  rw [h.link]
  unfold Root.linkIn
  split
  · rename_i home
    rw [decide_eq_true home]
    rfl
  · rename_i foreign
    rw [decide_eq_false foreign]
    rfl

/-- Away from the root the managed labels are those of the link, and others. -/
theorem managed_foreign (h : c.Hangs root) (foreign : c.ns ≠ root.ns) :
    Table.get? c.managedLabels root.kind.linkKeys.1 = some root.name ∧
      Table.get? c.managedLabels root.kind.linkKeys.2 = some root.ns := by
  have hne : ∀ k : RootKind, k.linkKeys.2 ≠ k.linkKeys.1 := by
    intro k
    cases k <;> decide
  have hmanaged : c.managedLabels = Table.insertAll c.labels root.linkLabels := by
    unfold managedLabels
    rw [h.link, Root.linkIn, if_neg foreign]
  rw [hmanaged, Root.linkLabels_eq]
  simp [Table.insertAll, hne]

/-- At home no managed label is one of a link. -/
theorem managed_home (h : c.Hangs root) (home : c.ns = root.ns) (kind : RootKind) :
    Table.get? c.managedLabels kind.linkKeys.1 = none ∧
      Table.get? c.managedLabels kind.linkKeys.2 = none := by
  have hmanaged : c.managedLabels = c.labels := by
    unfold managedLabels
    rw [h.link, Root.linkIn, if_pos home]
  rw [hmanaged]
  exact h.free kind

/-- What is applied away from the root is linked to it. -/
theorem links_tagged (h : c.Hangs root) (once : (Table.keys c.managedLabels).Nodup)
    (foreign : c.ns ≠ root.ns) (t : Option Tags) : (c.tagged t).Links root := by
  obtain ⟨hname, hns⟩ := h.managed_foreign foreign
  rw [Tags.links_iff]
  cases t with
  | none => exact ⟨hname, hns⟩
  | some t =>
    show Table.get? (Amend.labels _ _).1 _ = _ ∧ Table.get? (Amend.labels _ _).1 _ = _
    rw [Amend.get?_labels once, Amend.get?_labels once, hname, hns]
    exact ⟨rfl, rfl⟩

/-- What is applied at home is linked to nothing that it was not linked to before. -/
theorem links_of_tagged (h : c.Hangs root) (once : (Table.keys c.managedLabels).Nodup)
    (home : c.ns = root.ns) {t : Option Tags} {r : Root} (links : (c.tagged t).Links r) :
    ∃ u, t = some u ∧ u.Links r := by
  obtain ⟨hname, hns⟩ := h.managed_home home r.kind
  obtain ⟨hlink, hlink'⟩ := Tags.links_iff.mp links
  cases t with
  | none => exact absurd (hname.symm.trans hlink) nofun
  | some t =>
    change Table.get? (Amend.labels _ _).1 _ = _ at hlink hlink'
    rw [Amend.get?_labels once, hname, Option.none_or] at hlink
    rw [Amend.get?_labels once, hns, Option.none_or] at hlink'
    exact ⟨t, rfl, Tags.links_iff.mpr ⟨hlink, hlink'⟩⟩

end Child.Hangs

/-! ## §3. The children of a spec -/

theorem Child.hangs_make {root : Root} {ns name : String} {labels : Table String String}
    {body : Body} (free : ∀ kind : RootKind, Table.get? labels kind.linkKeys.1 = none ∧
      Table.get? labels kind.linkKeys.2 = none) :
    (Child.make root ns name labels body).Hangs root := ⟨rfl, free⟩

theorem nameLabel_free (name : String) (kind : RootKind) :
    Table.get? [(nameLabel, name)] kind.linkKeys.1 = none ∧
      Table.get? [(nameLabel, name)] kind.linkKeys.2 = none := by
  cases kind <;> simp [Table.get?_cons, nameLabel, RootKind.linkKeys]

theorem Child.trafficPolicy_hangs (root : Root) (ns service : String) (b : Balancing) :
    (Child.trafficPolicy root ns service b).Hangs root := hangs_make (nameLabel_free _)

theorem PickerPlan.labels_free (p : PickerPlan) (kind : RootKind) :
    Table.get? p.labels kind.linkKeys.1 = none ∧ Table.get? p.labels kind.linkKeys.2 = none := by
  cases kind <;> simp [labels, Table.ofEntries, Table.insertAll, nameLabel, componentLabel,
    RootKind.linkKeys]

theorem PickerPlan.children_hang (p : PickerPlan) (root : Root) :
    ∀ c ∈ p.children root, c.Hangs root := by
  have hmake : ∀ ns name body, (Child.make root ns name p.labels body).Hangs root :=
    fun _ _ _ => Child.hangs_make p.labels_free
  exact forall_children (hmake _ _ _) (hmake _ _ _) (hmake _ _ _) (hmake _ _ _)
    ⟨rfl, p.labels_free⟩ (hmake _ _ _)

namespace Install

/-- Every child of a SchedulerInstall hangs on its root as its namespace asks for. -/
theorem Spec.children_hang (root : Root) (caps : Capabilities) (s : Spec) :
    ∀ c ∈ s.children root caps, c.Hangs root := by
  refine Spec.forall_children ?picker ?gateway ?proxy ?grant ?route ?policy
  case picker => exact fun _ => PickerPlan.children_hang _ root
  case gateway => exact fun _ _ => Child.hangs_make (nameLabel_free _)
  case proxy => exact Child.hangs_make (nameLabel_free _)
  case grant => exact fun _ => Child.hangs_make (nameLabel_free _)
  case route =>
    intro _ c hc
    obtain ⟨r, _, rfl⟩ := Option.map_eq_some_iff.mp hc
    exact Child.hangs_make (nameLabel_free _)
  case policy => exact fun _ => Child.trafficPolicy_hangs _ _ _

end Install

namespace Simulator

theorem GatewayPlan.labels_free (p : GatewayPlan) (root : Root) (kind : RootKind) :
    Table.get? (p.labels root) kind.linkKeys.1 = none ∧
      Table.get? (p.labels root) kind.linkKeys.2 = none := by
  obtain ⟨name, flavor, config⟩ := p
  cases flavor <;> cases kind <;> simp [labels, Table.ofEntries, Table.insertAll, nameLabel,
    componentLabel, RootKind.linkKeys]

theorem GatewayPlan.children_hang (p : GatewayPlan) (root : Root) (backend : Endpoint) :
    ∀ c ∈ p.children root backend, c.Hangs root := by
  have hmake : ∀ body, (Child.make root root.ns p.name (p.labels root) body).Hangs root :=
    fun _ => Child.hangs_make (p.labels_free root)
  exact forall_children (fun _ => hmake _) ⟨rfl, p.labels_free root⟩ (hmake _)

theorem Workload.labels_free (w : Workload) (root : Root) (kind : RootKind) :
    Table.get? (w.labels root) kind.linkKeys.1 = none ∧
      Table.get? (w.labels root) kind.linkKeys.2 = none := by
  cases kind <;> simp [labels, Table.ofEntries, Table.insertAll, nameLabel, roleLabel,
    servingLabel, RootKind.linkKeys]

theorem Workload.children_hang (w : Workload) (root : Root) :
    ∀ c ∈ w.children root, c.Hangs root :=
  forall_children ⟨rfl, w.labels_free root⟩ (Child.hangs_make (w.labels_free root))

/-- Every child of a SimulatorDeployment hangs on its root as its namespace asks for. -/
theorem Spec.children_hang (root : Root) (caps : Capabilities) (s : Spec) :
    ∀ c ∈ s.children root caps, c.Hangs root := by
  refine Spec.forall_children ?picker ?gateways ?workloads ?policy
  case picker => exact fun _ => PickerPlan.children_hang _ root
  case gateways => exact fun p _ => p.children_hang root _
  case workloads => exact fun w _ => w.children_hang root
  case policy => exact fun _ => Child.trafficPolicy_hangs _ _ _

end Simulator

theorem RootSpec.children_hang (root : Root) (caps : Capabilities) (s : RootSpec) :
    ∀ c ∈ s.children root caps, c.Hangs root := by
  cases s with
  | install s => exact s.children_hang root caps
  | simulator s => exact s.children_hang root caps

/-! ## §4. Children applied in order -/

/-- Every object carries the name of its key. -/
def Tagging.Named (T : Tagging) : Prop := ∀ key t, T key = some t → t.name = some key.name

theorem Store.named_tags {s : Store} : s.tags.Named ↔ s.Named := by
  constructor
  · exact fun h key o ho => h key o.tags (Store.tags_of_get? ho)
  · intro h key t ht
    obtain ⟨o, ho, rfl⟩ := Option.map_eq_some_iff.mp ht
    exact h key o ho

namespace Tagging

variable {T : Tagging} {root r : Root} {cs : List Child} {key : Key}

theorem Named.put (h : T.Named) (c : Child) : (T.put c).Named := by
  intro key t ht
  by_cases hkey : c.key = key
  · subst hkey
    rw [put_self] at ht
    obtain rfl := Option.some.inj ht
    cases hbefore : T c.key with
    | none => rfl
    | some u => exact h c.key u hbefore
  · rw [put_of_ne T hkey] at ht
    exact h key t ht

theorem Named.lay (h : T.Named) (cs : List Child) : (T.lay cs).Named := by
  induction cs generalizing T with
  | nil => exact h
  | cons c cs ih => exact ih (h.put c)

/-- A child outside the namespace of the root is linked to the root. -/
theorem links_lay (proper : ∀ c ∈ cs, c.Proper) (hang : ∀ c ∈ cs, c.Hangs root)
    (foreign : key.ns ≠ root.ns) (child : ∃ c ∈ cs, c.key = key) : (T.lay cs).Links root key := by
  induction cs generalizing T with
  | nil =>
    obtain ⟨c, hc, _⟩ := child
    cases hc
  | cons c cs ih =>
    have hproper := fun d hd => proper d (List.mem_cons_of_mem c hd)
    have hhang := fun d hd => hang d (List.mem_cons_of_mem c hd)
    -- a later child with this key has the last word
    by_cases later : ∃ d ∈ cs, d.key = key
    · exact ih hproper hhang later
    · obtain ⟨d, hd, rfl⟩ := child
      obtain rfl : d = c := (List.mem_cons.mp hd).resolve_right fun h => later ⟨d, h, rfl⟩
      refine ⟨d.tagged (T d.key), ?_, ?_⟩
      · show (T.put d).lay cs d.key = _
        rw [lay_of_not_mem _ fun e he hkey => later ⟨e, he, hkey⟩, put_self]
      · exact (hang d hd).links_tagged (proper d hd).managed.nodup foreign _

/-- In the namespace of the root children are linked to nothing new. -/
theorem links_of_lay (proper : ∀ c ∈ cs, c.Proper) (hang : ∀ c ∈ cs, c.Hangs root)
    (home : key.ns = root.ns) (links : (T.lay cs).Links r key) : T.Links r key := by
  induction cs generalizing T with
  | nil => exact links
  | cons c cs ih =>
    obtain ⟨t, ht, hlinks⟩ := ih (fun d hd => proper d (List.mem_cons_of_mem c hd))
      (fun d hd => hang d (List.mem_cons_of_mem c hd)) links
    by_cases hkey : c.key = key
    · subst hkey
      rw [put_self] at ht
      obtain rfl := Option.some.inj ht
      exact (hang c (by simp)).links_of_tagged (proper c (by simp)).managed.nodup home hlinks
    · rw [put_of_ne T hkey] at ht
      exact ⟨t, ht, hlinks⟩

end Tagging

end Converge
