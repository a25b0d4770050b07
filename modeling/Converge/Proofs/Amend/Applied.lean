/-
  Converge.Proofs.Amend.Applied — what an object becomes when a child is applied.

  Main statements:
    * `Child.applied_applied` — applying a child again changes nothing.
    * `Child.applied_face` — versions play no part in it.
    * `Child.applied_of_alike` — an object that was created for a child, or brought to one, in
      the same seat becomes what a created one would be.
-/
import Converge.Proofs.Amend.Spared
import Converge.Proofs.Body.Frame
import Converge.Proofs.Store.Face

namespace Converge

/-! ## §1. Applying -/

/-- The object under the key of a child after the child was applied. -/
def Child.applied (c : Child) : Option Object → Object
  | none => Store.withUid c.toObject (Store.uidOf c.key)
  | some cur => (c.amend? cur).getD cur

/-- Bringing an object in line commutes with leaving out the version. -/
theorem Child.amend?_face (c : Child) (o : Object) :
    c.amend? o.face = (c.amend? o).map Object.face := by
  rw [Child.amend?_eq, Child.amend?_eq]
  show (if c.differs o then some (c.amended o.face) else none) = _
  cases c.differs o <;> rfl

theorem Child.applied_face (c : Child) (cur : Option Object) :
    c.applied (cur.map Object.face) = (c.applied cur).face := by
  cases cur with
  | none => rfl
  | some o =>
    show (c.amend? o.face).getD o.face = ((c.amend? o).getD o).face
    rw [Child.amend?_face]
    cases c.amend? o <;> rfl

/-! ## §2. Applying twice -/

/-- Created objects are in line. -/
theorem Child.amend?_created {c : Child} (h : c.Proper) (uid : String) :
    c.amend? (Store.withUid c.toObject uid) = none := by
  have hlabels : Amend.labels c.managedLabels c.managedLabels = (c.managedLabels, false) :=
    Amend.labels_of_carried fun e he => Table.get?_of_mem h.managed.nodup he
  have hdata : Amend.data c.body.kind c.body.toJson c.body.toJson = c.body.toJson :=
    Body.data_of_frame rfl h.body h.body
  exact Child.amend?_eq_none.mpr ⟨congrArg Prod.snd hlabels, hdata⟩

theorem Child.amend?_applied {c : Child} (h : c.Proper) (cur : Option Object) :
    c.amend? (c.applied cur) = none := by
  cases cur with
  | none => exact Child.amend?_created h _
  | some o =>
    show c.amend? ((c.amend? o).getD o) = none
    cases hn : c.amend? o with
    | none => exact hn
    | some next =>
      -- what was written back is in line, and what is in line is left alone
      have hline := Child.inLine_amend? h.body.regular h.managed.nodup hn
      exact (Child.amend?_none h.body.regular h.managed.nodup next).mpr hline

/-- Whatever it was before, an object is in line with a child that was applied to it. -/
theorem Child.inLine_applied {c : Child} (h : c.Proper) (cur : Option Object) :
    c.InLine (c.applied cur) :=
  (Child.amend?_none h.body.regular h.managed.nodup _).mp (Child.amend?_applied h cur)

theorem Child.applied_applied {c : Child} (h : c.Proper) (cur : Option Object) :
    c.applied (some (c.applied cur)) = c.applied cur := by
  show (c.amend? (c.applied cur)).getD _ = _
  rw [Child.amend?_applied h]
  rfl

/-! ## §3. The status stays -/

/-- What is written back has the version and the status it was read with. -/
theorem Child.amend?_same {c : Child} (h : c.Proper) {cur next : Object}
    (hn : c.amend? cur = some next) :
    next.metadata.resourceVersion = cur.metadata.resourceVersion ∧
      next.data.get? "status" = cur.data.get? "status" := by
  rw [Child.amend?_some hn]
  exact ⟨rfl, Amend.data_status h.body.regular cur.data⟩

theorem Body.toJson_status (b : Body) : b.toJson.get? "status" = none := by
  cases b <;> rfl

/-- A child leaves the status of what it is applied to, and creates none. -/
theorem Child.applied_status {c : Child} (h : c.Proper) (cur : Option Object) :
    (c.applied cur).data.get? "status" = cur.bind fun o => o.data.get? "status" := by
  cases cur with
  | none => exact c.body.toJson_status
  | some o =>
    show ((c.amend? o).getD o).data.get? "status" = o.data.get? "status"
    cases hn : c.amend? o with
    | none => rfl
    | some next => exact (Child.amend?_same h hn).2

/-! ## §4. What is left of earlier children -/

/-- The object has the body and the labels of a child, no more and no less. -/
def Child.IsBuilt (c : Child) (o : Object) : Prop :=
  o.data = c.body.toJson ∧ o.metadata.labels = some c.managedLabels

theorem Child.isBuilt_created (c : Child) : c.IsBuilt (c.applied none) := ⟨rfl, rfl⟩

/-- An object built for a child with the same labels and frame becomes one built for this. -/
theorem Child.isBuilt_applied {b c : Child} (hb : b.Proper) (hc : c.Proper)
    (labels : b.managedLabels = c.managedLabels) (frame : b.body.frame = c.body.frame)
    {o : Object} (built : b.IsBuilt o) : c.IsBuilt (c.applied (some o)) := by
  have hdata : Amend.data c.body.kind c.body.toJson o.data = c.body.toJson := by
    rw [built.1]
    exact Body.data_of_frame frame hb.body hc.body
  -- the labels are there already, so it is the body alone that may have to be written
  have hlabels : Amend.labels c.managedLabels (o.metadata.labels.getD [])
      = (c.managedLabels, false) := by
    rw [built.2, labels]
    exact Amend.labels_of_carried fun e he => Table.get?_of_mem hc.managed.nodup he
  show c.IsBuilt ((c.amend? o).getD o)
  cases hn : c.amend? o with
  | some next =>
    show c.IsBuilt next
    rw [Child.amend?_some hn]
    refine ⟨hdata, ?_⟩
    show some (Amend.labels c.managedLabels (o.metadata.labels.getD [])).1 = some c.managedLabels
    rw [hlabels]
  | none =>
    show c.IsBuilt o
    exact ⟨(Child.amend?_eq_none.mp hn).2.symm.trans hdata, built.2.trans (congrArg some labels)⟩

/-! ## §5. Children in order -/

/-- Of children with distinct keys one has a given key. -/
theorem Child.eq_of_key {cs : List Child} (once : (cs.map Child.key).Nodup) {b c : Child}
    (hb : b ∈ cs) (hc : c ∈ cs) (key : b.key = c.key) : b = c := by
  induction cs with
  | nil => cases hb
  | cons d cs ih =>
    obtain ⟨hd, hrest⟩ := List.nodup_cons.mp once
    rcases List.mem_cons.mp hb with hbd | hbs
    · rcases List.mem_cons.mp hc with hcd | hcs
      · rw [hbd, hcd]
      · rw [hbd] at key
        exact absurd (List.mem_map.mpr ⟨c, hcs, key.symm⟩) hd
    · rcases List.mem_cons.mp hc with hcd | hcs
      · rw [hcd] at key
        exact absurd (List.mem_map.mpr ⟨b, hbs, key⟩) hd
      · exact ih hrest hbs hcs

namespace Faces

/-- What is held after children were applied in order. -/
def lay (F : Faces) (cs : List Child) : Faces :=
  cs.foldl (fun G c => G.turn c.key (c.applied (G c.key))) F

theorem lay_cons (F : Faces) (c : Child) (cs : List Child) :
    F.lay (c :: cs) = (F.turn c.key (c.applied (F c.key))).lay cs := rfl

theorem lay_append (F : Faces) (cs ds : List Child) : F.lay (cs ++ ds) = (F.lay cs).lay ds :=
  List.foldl_append

/-- Children elsewhere do not matter. -/
theorem lay_of_not_mem (F : Faces) {cs : List Child} {k : Key} (elsewhere : ∀ c ∈ cs, c.key ≠ k) :
    F.lay cs k = F k := by
  induction cs generalizing F with
  | nil => rfl
  | cons c cs ih =>
    rw [lay_cons, ih _ fun d hd => elsewhere d (List.mem_cons_of_mem _ hd),
      turn_of_ne _ (elsewhere c (by simp))]

/-- Of children with distinct keys each finds what was there before. -/
theorem lay_of_mem (F : Faces) {cs : List Child} (once : (cs.map Child.key).Nodup) {c : Child}
    (hc : c ∈ cs) : F.lay cs c.key = some (c.applied (F c.key)) := by
  induction cs generalizing F with
  | nil => cases hc
  | cons d cs ih =>
    obtain ⟨hd, hrest⟩ := List.nodup_cons.mp once
    rw [lay_cons]
    rcases List.mem_cons.mp hc with rfl | hc
    · -- laid first, and not written again
      rw [lay_of_not_mem, turn_self]
      intro e he heq
      exact hd (List.mem_map.mpr ⟨e, he, heq⟩)
    · have hne : d.key ≠ c.key := by
        intro heq
        exact hd (List.mem_map.mpr ⟨c, hc, heq.symm⟩)
      rw [ih _ hrest hc, turn_of_ne _ hne]

/-- What a key holds in the end is up to the children that may have it. -/
theorem lay_filter {F G : Faces} {cs : List Child} {k : Key} {p : Child → Bool}
    (kept : ∀ c ∈ cs, c.key = k → p c = true) (same : F k = G k) :
    F.lay cs k = G.lay (cs.filter p) k := by
  induction cs generalizing F G with
  | nil => exact same
  | cons c cs ih =>
    obtain ⟨hc, hrest⟩ := List.forall_mem_cons.mp kept
    by_cases hkey : c.key = k
    · rw [List.filter_cons_of_pos (hc hkey), lay_cons, lay_cons]
      refine ih hrest ?_
      subst hkey
      rw [turn_self, turn_self, same]
    · -- dropped or not, it leaves the key alone
      have hturn := turn_of_ne F hkey (c.applied (F c.key))
      rw [lay_cons]
      by_cases hp : p c = true
      · rw [List.filter_cons_of_pos hp, lay_cons]
        exact ih hrest (hturn.trans (same.trans (turn_of_ne G hkey _).symm))
      · rw [List.filter_cons_of_neg hp]
        exact ih hrest (hturn.trans same)

/-- Applying children makes up for some of them having been applied before. -/
theorem lay_lay {F : Faces} {cs es : List Child} (once : (cs.map Child.key).Nodup)
    (proper : ∀ c ∈ cs, c.Proper) (early : es <+: cs) : (F.lay es).lay cs = F.lay cs := by
  have honce : (es.map Child.key).Nodup := (early.sublist.map Child.key).nodup once
  funext k
  by_cases hk : ∃ c ∈ cs, c.key = k
  · obtain ⟨c, hc, rfl⟩ := hk
    rw [lay_of_mem _ once hc, lay_of_mem _ once hc]
    by_cases he : ∃ d ∈ es, d.key = c.key
    · -- the child itself was applied before, and is applied again
      obtain ⟨d, hd, hkey⟩ := he
      have hsame : d = c := Child.eq_of_key once (early.subset hd) hc hkey
      subst hsame
      rw [lay_of_mem _ honce hd, Child.applied_applied (proper d hc)]
    · rw [lay_of_not_mem]
      exact fun d hd hkey => he ⟨d, hd, hkey⟩
  · have helse : ∀ c ∈ cs, c.key ≠ k := fun c hc hkey => hk ⟨c, hc, hkey⟩
    rw [lay_of_not_mem _ helse, lay_of_not_mem _ helse,
      lay_of_not_mem _ fun d hd => helse d (early.subset hd)]

/-- A write elsewhere may be made before or after. -/
theorem lay_turn (F : Faces) {cs : List Child} {k : Key} (elsewhere : ∀ c ∈ cs, c.key ≠ k)
    (o : Object) : (F.turn k o).lay cs = (F.lay cs).turn k o := by
  induction cs generalizing F with
  | nil => rfl
  | cons c cs ih =>
    have hne : k ≠ c.key := Ne.symm (elsewhere c (by simp))
    rw [lay_cons, lay_cons, turn_of_ne _ hne, turn_comm _ hne,
      ih _ fun d hd => elsewhere d (List.mem_cons_of_mem _ hd)]

end Faces

end Converge
