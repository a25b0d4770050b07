/-
  Converge.Proofs.Ledger — what the ledger lists after children were noted.

  Main statements:
    * `Ledger.children_notedAll` — the children of a root after children were noted for it.
    * `Ledger.children_notedAll_again` — noting some of the children before all of them makes no
      difference.
    * `Ledger.mem_linked_iff` — which children outlive their root.
-/
import Converge.Proofs.Amend.Applied
import Converge.Proofs.Table.Writes
import Converge.Ledger

namespace Converge.Ledger

/-! ## §1. Children that are noted -/

/-- The ledger after a child was applied. -/
def noted (l : Ledger) (root : Key) (c : Child) : Ledger := l.record root c.key c.link.isOwned

/-- The ledger after children were applied in order. -/
def notedAll (l : Ledger) (root : Key) (cs : List Child) : Ledger :=
  cs.foldl (fun l c => l.noted root c) l

theorem children_congr {l l' : Ledger} {root : Key}
    (same : Table.get? l' root = Table.get? l root) : l'.children root = l.children root := by
  unfold children
  rw [same]

theorem children_record (l : Ledger) (root child r : Key) (owned : Bool) :
    (l.record root child owned).children r
      = if root = r then Table.insert (l.children root) child owned else l.children r := by
  unfold record children
  rw [Table.get?_insert]
  by_cases h : root = r
  · rw [if_pos h, if_pos h]
    rfl
  · rw [if_neg h, if_neg h]

theorem children_noted (l : Ledger) (root r : Key) (c : Child) :
    (l.noted root c).children r
      = if root = r then Table.insert (l.children root) c.key c.link.isOwned else l.children r :=
  l.children_record root c.key r c.link.isOwned

/-- Other roots are not affected. -/
theorem children_notedAll_of_ne (l : Ledger) {root r : Key} (h : root ≠ r) (cs : List Child) :
    (l.notedAll root cs).children r = l.children r := by
  induction cs generalizing l with
  | nil => rfl
  | cons c cs ih =>
    show ((l.noted root c).notedAll root cs).children r = _
    rw [ih, children_noted, if_neg h]

/-- Other children are not affected. -/
theorem children_notedAll_of_not_mem (l : Ledger) (root : Key) {cs : List Child} {k : Key}
    (elsewhere : ∀ c ∈ cs, c.key ≠ k) :
    Table.get? ((l.notedAll root cs).children root) k = Table.get? (l.children root) k := by
  induction cs generalizing l with
  | nil => rfl
  | cons c cs ih =>
    show Table.get? (((l.noted root c).notedAll root cs).children root) k = _
    rw [ih _ fun d hd => elsewhere d (List.mem_cons_of_mem _ hd), children_noted, if_pos rfl,
      Table.get?_insert, if_neg (elsewhere c (by simp))]

/-- Of children with distinct keys each is listed as it was noted. -/
theorem children_notedAll (l : Ledger) (root : Key) {cs : List Child}
    (once : (cs.map Child.key).Nodup) {c : Child} (hc : c ∈ cs) :
    Table.get? ((l.notedAll root cs).children root) c.key = some c.link.isOwned := by
  induction cs generalizing l with
  | nil => cases hc
  | cons d cs ih =>
    obtain ⟨hd, hrest⟩ := List.nodup_cons.mp once
    show Table.get? (((l.noted root d).notedAll root cs).children root) c.key = _
    rcases List.mem_cons.mp hc with rfl | hc
    · rw [children_notedAll_of_not_mem, children_noted, if_pos rfl, Table.get?_insert, if_pos rfl]
      intro e he heq
      exact hd (List.mem_map.mpr ⟨e, he, heq⟩)
    · exact ih _ hrest hc

/-- Noting all children makes up for some of them having been noted before. -/
theorem children_notedAll_again (l : Ledger) (root : Key) {cs ds : List Child}
    (once : (cs.map Child.key).Nodup) (early : ∀ d ∈ ds, d ∈ cs) (r k : Key) :
    Table.get? (((l.notedAll root ds).notedAll root cs).children r) k
      = Table.get? ((l.notedAll root cs).children r) k := by
  by_cases hr : root = r
  · subst hr
    by_cases hk : ∃ c ∈ cs, c.key = k
    · obtain ⟨c, hc, rfl⟩ := hk
      rw [children_notedAll _ _ once hc, children_notedAll _ _ once hc]
    · have helse : ∀ c ∈ cs, c.key ≠ k := fun c hc hkey => hk ⟨c, hc, hkey⟩
      rw [children_notedAll_of_not_mem _ _ helse, children_notedAll_of_not_mem _ _ helse,
        children_notedAll_of_not_mem _ _ fun d hd => helse d (early d hd)]
  · rw [children_notedAll_of_ne _ hr, children_notedAll_of_ne _ hr, children_notedAll_of_ne _ hr]

/-- What is known afterwards are the children, and what was known before. -/
theorem has_notedAll (l : Ledger) (root : Key) (cs : List Child) (k : Key) :
    Table.has ((l.notedAll root cs).children root) k = true
      ↔ (∃ c ∈ cs, c.key = k) ∨ Table.has (l.children root) k = true := by
  induction cs generalizing l with
  | nil => simp [notedAll]
  | cons c cs ih =>
    show Table.has (((l.noted root c).notedAll root cs).children root) k = true ↔ _
    rw [ih, children_noted, if_pos rfl, Table.has_insert, Bool.or_eq_true, decide_eq_true_iff]
    simp only [List.mem_cons, or_and_right, exists_or, exists_eq_left]
    rw [or_left_comm, or_assoc]

theorem children_forget (l : Ledger) (root r : Key) :
    (l.forget root).children r = if root = r then [] else l.children r := by
  unfold forget children
  rw [Table.get?_erase]
  by_cases h : root = r
  · rw [if_pos h, if_pos h]
    rfl
  · rw [if_neg h, if_neg h]

/-! ## §2. Children that outlive their root -/

/-- The children of a root that are owned are those in its namespace. -/
def Homed (l : Ledger) (root : Key) : Prop :=
  ∀ e ∈ l.children root, e.2 = decide (e.1.ns = root.ns)

theorem homed_of_children {l : Ledger} {root : Key} (none : l.children root = []) :
    l.Homed root := by
  intro e he
  rw [none] at he
  cases he

/-- Then the children that outlive a root are those that are known elsewhere. -/
theorem mem_linked_iff {l : Ledger} {root k : Key} (homed : l.Homed root) :
    k ∈ l.linked root ↔ Table.has (l.children root) k = true ∧ k.ns ≠ root.ns := by
  unfold linked Table.has
  rw [Table.isSome_get?_iff, List.mem_map]
  constructor
  · rintro ⟨e, he, rfl⟩
    obtain ⟨hmem, hfree⟩ := List.mem_filter.mp he
    refine ⟨List.mem_map_of_mem hmem, ?_⟩
    simpa [homed e hmem] using hfree
  · rintro ⟨hk, hns⟩
    obtain ⟨e, he, rfl⟩ := List.mem_map.mp hk
    exact ⟨e, List.mem_filter.mpr ⟨he, by simpa [homed e he] using hns⟩, rfl⟩

theorem Homed.notedAll {l : Ledger} {root : Key} (homed : l.Homed root) {cs : List Child}
    (owned : ∀ c ∈ cs, c.link.isOwned = decide (c.ns = root.ns)) :
    (l.notedAll root cs).Homed root := by
  induction cs generalizing l with
  | nil => exact homed
  | cons c cs ih =>
    refine ih ?_ fun d hd => owned d (List.mem_cons_of_mem _ hd)
    intro e he
    rw [children_noted, if_pos rfl] at he
    rcases Table.mem_of_mem_insert he with rfl | he
    · exact owned c List.mem_cons_self
    · exact homed e he

end Converge.Ledger
