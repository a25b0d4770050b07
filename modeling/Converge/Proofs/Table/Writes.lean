/-
  Converge.Proofs.Table.Writes — writes to a table that undo or pass each other.

  A key that is there keeps its place when it is written, so that writing it twice is the
  second write, and writing another key first or last makes no difference.

  Main statements:
    * `insert_insert`, `erase_insert` — the later write to one key wins.
    * `insert_comm`, `erase_insert_comm` — writes to different keys pass each other.
    * `nodup_insert`, `nodup_erase` — writes keep keys apart.
-/
import Converge.Proofs.Table.Ascending

namespace Converge.Table

variable {α β : Type} [DecidableEq α]

/-! ## §1. The writes in place -/

theorem replace_replace (m : Table α β) (k : α) (v w : β) :
    replace (replace m k v) k w = replace m k w := by
  induction m with
  | nil => rfl
  | cons e rest ih =>
    obtain ⟨a, u⟩ := e
    by_cases ha : a = k
    · simp [replace, ha]
    · simp [replace, ha, ih]

theorem replace_comm (m : Table α β) {k l : α} (hkl : k ≠ l) (v w : β) :
    replace (replace m k v) l w = replace (replace m l w) k v := by
  induction m with
  | nil => rfl
  | cons e rest ih =>
    obtain ⟨a, u⟩ := e
    by_cases hk : a = k
    · subst hk
      simp [replace, hkl]
    · by_cases hl : a = l
      · subst hl
        simp [replace, hk]
      · simp [replace, hk, hl, ih]

theorem erase_replace (m : Table α β) (k : α) (v : β) : erase (replace m k v) k = erase m k := by
  induction m with
  | nil => rfl
  | cons e rest ih =>
    obtain ⟨a, u⟩ := e
    by_cases ha : a = k
    · simp [replace, erase, ha]
    · simp [replace, erase, ha, ih]

theorem erase_replace_comm (m : Table α β) {k l : α} (hkl : k ≠ l) (v : β) :
    erase (replace m k v) l = replace (erase m l) k v := by
  induction m with
  | nil => rfl
  | cons e rest ih =>
    obtain ⟨a, u⟩ := e
    by_cases hk : a = k
    · subst hk
      simp [replace, erase, hkl]
    · by_cases hl : a = l
      · subst hl
        simp [replace, erase, hk, ih]
      · simp [replace, erase, hk, hl, ih]

theorem has_replace (m : Table α β) (k l : α) (v : β) : has (replace m k v) l = has m l := by
  unfold has
  rw [get?_replace]
  by_cases h : k = l ∧ has m k = true
  · rw [if_pos h, ← h.1]
    exact h.2.symm
  · rw [if_neg h]

theorem mem_of_mem_replace {m : Table α β} {k : α} {v : β} {e : α × β}
    (h : e ∈ replace m k v) : e = (k, v) ∨ e ∈ m := by
  induction m with
  | nil => cases h
  | cons d rest ih =>
    obtain ⟨a, w⟩ := d
    unfold replace at h
    split at h
    · exact (List.mem_cons.mp h).imp id (List.mem_cons_of_mem _)
    · rcases List.mem_cons.mp h with rfl | h
      · exact .inr List.mem_cons_self
      · exact (ih h).imp id (List.mem_cons_of_mem _)

/-! ## §2. Insertion and erasure -/

variable [LT α] [DecidableLT α]

theorem place_replace (m : Table α β) {k l : α} (hkl : k ≠ l) (v w : β) :
    place (replace m k v) l w = replace (place m l w) k v := by
  induction m with
  | nil => simp [place, replace, Ne.symm hkl]
  | cons e rest ih =>
    obtain ⟨a, u⟩ := e
    by_cases hk : a = k
    · subst hk
      by_cases hlt : l < a
      · simp [place, replace, hlt, Ne.symm hkl]
      · simp [place, replace, hlt]
    · by_cases hlt : l < a
      · simp [place, replace, hlt, hk, Ne.symm hkl]
      · simp [place, replace, hlt, hk, ih]

theorem has_insert (m : Table α β) (k l : α) (v : β) :
    has (insert m k v) l = (decide (k = l) || has m l) := by
  unfold has
  rw [get?_insert]
  by_cases h : k = l <;> simp [h]

theorem replace_place {m : Table α β} {k : α} (gone : get? m k = none) (v w : β) :
    replace (place m k v) k w = place m k w := by
  induction m with
  | nil => simp [place, replace]
  | cons e rest ih =>
    obtain ⟨a, x⟩ := e
    have hak : a ≠ k := by
      intro h
      simp [get?, h] at gone
    have hrest : get? rest k = none := by
      rwa [get?_cons, if_neg hak] at gone
    by_cases hlt : k < a
    · simp [place, replace, hlt]
    · simp [place, replace, hlt, hak, ih hrest]

/-- Of two writes to one key the second counts. -/
theorem insert_insert (m : Table α β) (k : α) (v w : β) :
    insert (insert m k v) k w = insert m k w := by
  have hhas : has (insert m k v) k = true := by
    rw [has_insert, decide_eq_true rfl, Bool.true_or]
  have htwice : insert (insert m k v) k w = replace (insert m k v) k w := by
    show (if has (insert m k v) k then _ else _) = _
    rw [if_pos hhas]
  rw [htwice]
  unfold insert
  by_cases hk : has m k = true
  · rw [if_pos hk, if_pos hk, replace_replace]
  · have hgone : get? m k = none := by simpa [has] using hk
    rw [if_neg hk, if_neg hk, replace_place hgone]

/-- Writing a key that is there passes a write to another key. -/
theorem insert_comm {m : Table α β} {k l : α} (hk : has m k = true) (hkl : k ≠ l) (v w : β) :
    insert (insert m k v) l w = insert (insert m l w) k v := by
  have hki : has (insert m l w) k = true := by
    rw [has_insert, hk, Bool.or_true]
  have hin : insert (insert m l w) k v = replace (insert m l w) k v := by
    unfold insert at hki ⊢
    rw [if_pos hki]
  rw [hin]
  unfold insert
  rw [if_pos hk, has_replace]
  by_cases hl : has m l = true
  · rw [if_pos hl, if_pos hl, replace_comm m hkl]
  · rw [if_neg hl, if_neg hl, place_replace m hkl]

theorem erase_place (m : Table α β) (k : α) (v : β) : erase (place m k v) k = erase m k := by
  induction m with
  | nil => simp [place, erase]
  | cons e rest ih =>
    obtain ⟨a, w⟩ := e
    by_cases hlt : k < a
    · simp [place, erase, hlt]
    · simp [place, erase, hlt, ih]

/-- A write to a key is lost when the key is erased. -/
theorem erase_insert (m : Table α β) (k : α) (v : β) : erase (insert m k v) k = erase m k := by
  unfold insert
  split
  · exact erase_replace m k v
  · exact erase_place m k v

/-- Writing a key that is there passes the erasure of another key. -/
theorem erase_insert_comm {m : Table α β} {k l : α} (hk : has m k = true) (hkl : k ≠ l) (v : β) :
    erase (insert m k v) l = insert (erase m l) k v := by
  have hke : has (erase m l) k = true := by
    unfold has at hk ⊢
    rw [get?_erase, if_neg (Ne.symm hkl)]
    exact hk
  unfold insert
  rw [if_pos hk, if_pos hke, erase_replace_comm m hkl]

/-! ## §3. Entries -/

omit [DecidableEq α] in
theorem mem_of_mem_place {m : Table α β} {k : α} {v : β} {e : α × β}
    (h : e ∈ place m k v) : e = (k, v) ∨ e ∈ m := by
  induction m with
  | nil => exact .inl (List.mem_singleton.mp h)
  | cons d rest ih =>
    obtain ⟨a, w⟩ := d
    unfold place at h
    split at h
    · exact List.mem_cons.mp h
    · rcases List.mem_cons.mp h with rfl | h
      · exact .inr List.mem_cons_self
      · exact (ih h).imp id (List.mem_cons_of_mem _)

/-- An insertion brings one entry. -/
theorem mem_of_mem_insert {m : Table α β} {k : α} {v : β} {e : α × β}
    (h : e ∈ insert m k v) : e = (k, v) ∨ e ∈ m := by
  unfold insert at h
  split at h
  · exact mem_of_mem_replace h
  · exact mem_of_mem_place h

/-! ## §4. Distinct keys -/

omit [LT α] [DecidableLT α] in
theorem nodup_erase {m : Table α β} (once : (keys m).Nodup) (k : α) : (keys (erase m k)).Nodup :=
  once.sublist (keys_erase_sublist m k)

omit [DecidableEq α] in
theorem keys_place_perm (m : Table α β) (k : α) (v : β) :
    (keys (place m k v)).Perm (k :: keys m) := by
  induction m with
  | nil => exact .refl _
  | cons e rest ih =>
    obtain ⟨a, w⟩ := e
    unfold place
    split
    · exact .refl _
    · exact (ih.cons a).trans (.swap k a (keys rest))

theorem nodup_insert {m : Table α β} (once : (keys m).Nodup) (k : α) (v : β) :
    (keys (insert m k v)).Nodup := by
  unfold insert
  by_cases hk : has m k = true
  · rw [if_pos hk, keys_replace]
    exact once
  · rw [if_neg hk, (keys_place_perm m k v).nodup_iff, List.nodup_cons, ← isSome_get?_iff]
    exact ⟨hk, once⟩

end Converge.Table
