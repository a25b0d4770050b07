/-
  Converge.Proofs.Roster — rosters of texts ascend.

  A roster that is built member by member holds each of them once and in ascending order, so that
  two rosters with the same members are the same list.

  Main statements:
    * `Ascending.ext` — ascending rosters with the same members are the same roster.
    * `Ascending.union`, `ascending_ofList` — what is built ascends.
    * `ofList_of_ascending`, `union_of_subset` — where nothing is new nothing changes.
-/
import Converge.Roster

namespace Converge.Roster

variable {s t : Roster String}

/-- Every member is smaller than those after it. -/
def Ascending (s : Roster String) : Prop := s.Pairwise (· < ·)

theorem ascending_nil : Ascending [] := List.Pairwise.nil

theorem ascending_cons {x : String} : Ascending (x :: s) ↔ (∀ y ∈ s, x < y) ∧ Ascending s :=
  List.pairwise_cons

theorem Ascending.nodup (h : Ascending s) : s.Nodup := by
  refine List.Pairwise.imp ?_ h
  intro x y hlt heq
  subst heq
  exact String.lt_irrefl x hlt

theorem Ascending.insert (h : Ascending s) (x : String) : Ascending (insert s x) := by
  induction s with
  | nil => exact List.pairwise_singleton _ _
  | cons a rest ih =>
    obtain ⟨hlow, hrest⟩ := ascending_cons.mp h
    unfold Roster.insert
    split
    · exact h
    · rename_i hne
      split
      · -- the member comes before the first one, and so before all others
        rename_i hlt
        refine ascending_cons.mpr ⟨?_, h⟩
        intro y hy
        rcases List.mem_cons.mp hy with rfl | hy
        · exact hlt
        · exact String.lt_trans hlt (hlow y hy)
      · -- neither equal nor smaller, so that it comes behind the first one
        rename_i hnlt
        refine ascending_cons.mpr ⟨?_, ih hrest⟩
        intro y hy
        rcases (mem_insert rest x y).mp hy with rfl | hy
        · apply Decidable.byContradiction
          intro hn
          exact hne (String.le_antisymm (String.not_lt.mp hn) (String.not_lt.mp hnlt))
        · exact hlow y hy

theorem Ascending.union (h : Ascending s) (extra : Roster String) : Ascending (union s extra) := by
  unfold Roster.union
  induction extra generalizing s with
  | nil => exact h
  | cons x extra ih => exact ih (h.insert x)

theorem ascending_ofList (xs : List String) : Ascending (ofList xs) := ascending_nil.union xs

/-- Ascending rosters with the same members are the same. -/
theorem Ascending.ext (hs : Ascending s) (ht : Ascending t) (same : ∀ x, x ∈ s ↔ x ∈ t) : s = t := by
  have hperm : List.Perm s t := (List.perm_ext_iff_of_nodup hs.nodup ht.nodup).mpr same
  refine List.Perm.eq_of_pairwise ?_ hs ht hperm
  intro x y _ _ hxy hyx
  exact absurd (String.lt_trans hxy hyx) (String.lt_irrefl x)

/-- An ascending list is the roster of its members. -/
theorem ofList_of_ascending (h : Ascending s) : ofList s = s :=
  (ascending_ofList s).ext h fun x => mem_ofList s x

/-- Members that are there already add nothing. -/
theorem union_of_subset (h : Ascending s) {extra : Roster String} (known : ∀ x ∈ extra, x ∈ s) :
    union s extra = s := by
  refine (h.union extra).ext h fun x => ?_
  rw [mem_union]
  exact or_iff_left_of_imp (known x)

end Converge.Roster
