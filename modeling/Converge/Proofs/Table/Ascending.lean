/-
  Converge.Proofs.Table.Ascending — tables whose keys ascend.

  A table of texts in which every key is smaller than the next holds each key once, is
  known from its look-ups, and stays so under insertion and erasure.

  Main statements:
    * `get?_of_mem` — in an ascending table a look-up finds every entry.
    * `Ascending.ext` — ascending tables with the same look-ups are the same table.
    * `Ascending.insert`, `Ascending.erase`, `ascending_ofEntries` — what keeps the order.
-/
import Converge.Table

namespace Converge.Table

variable {β : Type}

/-! ## §1. Entries and look-ups -/

theorem mem_of_get? {α : Type} [DecidableEq α] {m : Table α β} {k : α} {v : β}
    (h : get? m k = some v) : (k, v) ∈ m := by
  induction m with
  | nil => simp at h
  | cons e rest ih =>
    obtain ⟨a, w⟩ := e
    rw [get?_cons] at h
    split at h
    · rename_i ha
      subst ha
      injection h with h
      subst h
      simp
    · exact List.mem_cons_of_mem _ (ih h)

theorem has_iff {α : Type} [DecidableEq α] {m : Table α β} {k : α} :
    has m k = true ↔ ∃ v, get? m k = some v := by
  unfold has
  exact Option.isSome_iff_exists

theorem isSome_get?_iff {α : Type} [DecidableEq α] {m : Table α β} {k : α} :
    (get? m k).isSome = true ↔ k ∈ keys m := by
  induction m with
  | nil => simp [keys]
  | cons e rest ih =>
    obtain ⟨a, w⟩ := e
    by_cases ha : a = k
    · simp [get?_cons, ha, keys]
    · have hk : k ≠ a := fun h => ha h.symm
      simp only [get?_cons, if_neg ha, ih]
      simp [keys, hk]

/-- What is found after a write is what was written, or was there before under another key. -/
theorem get?_of_insert {α : Type} [DecidableEq α] [LT α] [DecidableLT α] {m : Table α β}
    {k l : α} {v w : β} (h : get? (insert m k v) l = some w) :
    (k = l ∧ v = w) ∨ (k ≠ l ∧ get? m l = some w) := by
  rw [get?_insert] at h
  by_cases hk : k = l
  · rw [if_pos hk] at h
    exact .inl ⟨hk, Option.some.inj h⟩
  · rw [if_neg hk] at h
    exact .inr ⟨hk, h⟩

/-- What is found after an erasure was there before under another key. -/
theorem get?_of_erase {α : Type} [DecidableEq α] {m : Table α β} {k l : α} {w : β}
    (h : get? (erase m k) l = some w) : k ≠ l ∧ get? m l = some w := by
  rw [get?_erase] at h
  by_cases hk : k = l
  · rw [if_pos hk] at h
    exact absurd h nofun
  · rw [if_neg hk] at h
    exact ⟨hk, h⟩

theorem get?_of_not_mem {α : Type} [DecidableEq α] {m : Table α β} {k : α} (h : k ∉ keys m) :
    get? m k = none := by
  rw [← isSome_get?_iff] at h
  simpa using h

/-- In a table that holds each key once, a look-up finds every entry. -/
theorem get?_of_mem {α : Type} [DecidableEq α] {m : Table α β} (once : (keys m).Nodup) {k : α}
    {v : β} (h : (k, v) ∈ m) : get? m k = some v := by
  induction m with
  | nil => simp at h
  | cons e rest ih =>
    obtain ⟨a, w⟩ := e
    have hnd : a ∉ keys rest ∧ (keys rest).Nodup := List.nodup_cons.mp once
    rcases List.mem_cons.mp h with heq | hmem
    · injection heq with hk hv
      subst hk hv
      simp [get?_cons]
    · have hk : k ∈ keys rest := List.mem_map_of_mem (f := Prod.fst) hmem
      have hne : a ≠ k := by
        intro hak
        subst hak
        exact hnd.1 hk
      rw [get?_cons, if_neg hne]
      exact ih hnd.2 hmem

/-! ## §2. Ascending keys -/

/-- Every key is smaller than the keys after it. -/
def Ascending (m : Table String β) : Prop := (keys m).Pairwise (· < ·)

instance (m : Table String β) : Decidable (Ascending m) :=
  inferInstanceAs (Decidable ((keys m).Pairwise (· < ·)))

theorem ascending_nil : Ascending ([] : Table String β) := List.Pairwise.nil

theorem ascending_cons {a : String} {v : β} {rest : Table String β} :
    Ascending ((a, v) :: rest) ↔ (∀ k ∈ keys rest, a < k) ∧ Ascending rest :=
  List.pairwise_cons

theorem Ascending.nodup {m : Table String β} (h : Ascending m) : (keys m).Nodup := by
  refine List.Pairwise.imp ?_ h
  intro a b hlt heq
  subst heq
  exact String.lt_irrefl a hlt

/-- The keys of a table with fewer entries ascend as well. -/
theorem Ascending.sublist {m n : Table String β} (h : Ascending n)
    (sub : List.Sublist (keys m) (keys n)) : Ascending m :=
  List.Pairwise.sublist sub h

/-! ## §3. What keeps the order -/

theorem keys_replace {α : Type} [DecidableEq α] (m : Table α β) (k : α) (v : β) :
    keys (replace m k v) = keys m := by
  induction m with
  | nil => rfl
  | cons e rest ih =>
    obtain ⟨a, w⟩ := e
    unfold replace
    split
    · rename_i ha
      subst ha
      rfl
    · show a :: keys (replace rest k v) = a :: keys rest
      rw [ih]

theorem mem_keys_place {m : Table String β} {k l : String} {v : β} :
    l ∈ keys (place m k v) ↔ l = k ∨ l ∈ keys m := by
  induction m with
  | nil => simp [place, keys]
  | cons e rest ih =>
    obtain ⟨a, w⟩ := e
    unfold place
    split
    · simp [keys]
    · show l ∈ a :: keys (place rest k v) ↔ l = k ∨ l ∈ a :: keys rest
      rw [List.mem_cons, List.mem_cons, ih]
      exact or_left_comm

theorem Ascending.place {m : Table String β} (h : Ascending m) {k : String} (v : β)
    (fresh : k ∉ keys m) : Ascending (place m k v) := by
  induction m with
  | nil => exact List.pairwise_singleton _ _
  | cons e rest ih =>
    obtain ⟨a, w⟩ := e
    obtain ⟨hlow, hrest⟩ := ascending_cons.mp h
    have hka : k ≠ a := by
      intro hk
      subst hk
      exact fresh (by simp [keys])
    have hfresh : k ∉ keys rest := fun hk => fresh (List.mem_cons_of_mem _ hk)
    unfold Table.place
    split
    · -- the key comes before the first one, and so before all others
      rename_i hlt
      refine ascending_cons.mpr ⟨?_, h⟩
      intro l hl
      rcases List.mem_cons.mp hl with rfl | hl
      · exact hlt
      · exact String.lt_trans hlt (hlow l hl)
    · -- the key comes somewhere behind the first one
      rename_i hnlt
      refine ascending_cons.mpr ⟨?_, ih hrest hfresh⟩
      intro l hl
      rcases mem_keys_place.mp hl with rfl | hl
      · -- neither smaller nor equal, so greater
        apply Decidable.byContradiction
        intro hn
        exact hka (String.le_antisymm (String.not_lt.mp hn) (String.not_lt.mp hnlt))
      · exact hlow l hl

theorem Ascending.insert {m : Table String β} (h : Ascending m) (k : String) (v : β) :
    Ascending (insert m k v) := by
  unfold Table.insert
  split
  · show (keys (Table.replace m k v)).Pairwise _
    rw [keys_replace]
    exact h
  · rename_i hno
    refine h.place v ?_
    intro hk
    exact hno (isSome_get?_iff.mpr hk)

theorem keys_erase_sublist {α : Type} [DecidableEq α] (m : Table α β) (k : α) :
    List.Sublist (keys (erase m k)) (keys m) := by
  induction m with
  | nil => exact List.Sublist.refl _
  | cons e rest ih =>
    obtain ⟨a, w⟩ := e
    unfold erase
    split
    · exact List.Sublist.cons _ ih
    · exact List.Sublist.cons_cons _ ih

theorem Ascending.erase {m : Table String β} (h : Ascending m) (k : String) :
    Ascending (erase m k) :=
  h.sublist (keys_erase_sublist m k)

theorem Ascending.insertAll {m : Table String β} (h : Ascending m) (extra : Table String β) :
    Ascending (insertAll m extra) := by
  unfold Table.insertAll
  induction extra generalizing m with
  | nil => exact h
  | cons e rest ih => exact ih (h.insert e.1 e.2)

/-- Tables made from entries ascend. -/
theorem ascending_ofEntries (entries : List (String × β)) : Ascending (ofEntries entries) :=
  ascending_nil.insertAll entries

/-! ## §4. Known from their look-ups -/

/-- Ascending tables that answer every look-up alike are the same. -/
theorem Ascending.ext {m n : Table String β} (hm : Ascending m) (hn : Ascending n)
    (same : ∀ k, get? m k = get? n k) : m = n := by
  induction m generalizing n with
  | nil =>
    cases n with
    | nil => rfl
    | cons e rest =>
      obtain ⟨b, w⟩ := e
      simpa [get?_cons] using same b
  | cons e rest ih =>
    obtain ⟨a, v⟩ := e
    cases n with
    | nil => simpa [get?_cons] using same a
    | cons f more =>
      obtain ⟨b, w⟩ := f
      obtain ⟨hlow, hrest⟩ := ascending_cons.mp hm
      obtain ⟨hlow', hmore⟩ := ascending_cons.mp hn
      -- of two different first keys each would stand behind the other one
      have hab : a = b := by
        apply Decidable.byContradiction
        intro hne
        have ha : a ∈ keys more := by
          have h := same a
          rw [get?_cons, if_pos rfl, get?_cons, if_neg (Ne.symm hne)] at h
          exact isSome_get?_iff.mp (by simp [← h])
        have hb : b ∈ keys rest := by
          have h := same b
          rw [get?_cons, if_neg hne, get?_cons, if_pos rfl] at h
          exact isSome_get?_iff.mp (by simp [h])
        exact String.lt_irrefl a (String.lt_trans (hlow b hb) (hlow' a ha))
      subst hab
      have hvw : v = w := by
        have h := same a
        rw [get?_cons, if_pos rfl, get?_cons, if_pos rfl] at h
        exact Option.some.inj h
      subst hvw
      -- neither rest has the first key again, and on all other keys they answer alike
      have htail : rest = more := by
        refine ih hrest hmore ?_
        intro k
        by_cases hk : a = k
        · subst hk
          have hr : a ∉ keys rest := fun h => String.lt_irrefl a (hlow a h)
          have hs : a ∉ keys more := fun h => String.lt_irrefl a (hlow' a h)
          rw [get?_of_not_mem hr, get?_of_not_mem hs]
        · have h := same k
          rwa [get?_cons, if_neg hk, get?_cons, if_neg hk] at h
      rw [htail]

end Converge.Table
