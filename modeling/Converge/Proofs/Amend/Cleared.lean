/-
  Converge.Proofs.Amend.Cleared — members that go once they are not desired.

  Clearing takes nothing away but members the desired part lacks, so that the rows of the
  table do not disturb each other, nor what was achieved before them.

  Main statements:
    * `covers_clearRows`, `replaced_clearRows` — clearing keeps what laying over and
      replacing achieved.
    * `cleared_clearRows` — afterwards every row is cleared.
    * `clearRows_fixed` — where every row is cleared, nothing changes.
-/
import Converge.Proofs.Amend.Replaced

namespace Converge

open Json (Step Covers Along Trims)

/-! ## §1. What the tables ask for -/

/-- In every part the row leads to, its members are as desired, or missing with them. -/
def OwnedMembers.Replaced (row : OwnedMembers) (cur want : Json) : Prop :=
  ∀ c d, Along row.parent cur want c d → ∀ k ∈ row.keys, c.get? k = d.get? k

/-- In every part the row leads to, its members are missing where they are not desired. -/
def OwnedMembers.Cleared (row : OwnedMembers) (cur want : Json) : Prop :=
  ∀ c d, Along row.parent cur want c d → ∀ k ∈ row.keys, d.get? k = none → c.get? k = none

namespace Amend

/-! ## §2. Clearing members -/

/-- Drop the members the desired part omits. -/
def clearMembers (keys : List String) (cur want : Json) : Json :=
  keys.foldl (clearMember want) cur

theorem clearMembers_cons (k : String) (keys : List String) (cur want : Json) :
    clearMembers (k :: keys) cur want = clearMembers keys (clearMember want cur k) want := rfl

theorem get?_clearMember (want cur : Json) (k l : String) :
    (clearMember want cur k).get? l
      = if k = l ∧ want.get? k = none then none else cur.get? l := by
  unfold clearMember
  cases hy : want.get? k with
  | none => simp
  | some y => simp

theorem get?_clearMembers (keys : List String) (cur want : Json) (l : String) :
    (clearMembers keys cur want).get? l
      = if l ∈ keys ∧ want.get? l = none then none else cur.get? l := by
  induction keys generalizing cur with
  | nil => simp [clearMembers]
  | cons k keys ih =>
    rw [clearMembers_cons, ih, get?_clearMember]
    by_cases hl : want.get? l = none
    · by_cases hk : k = l
      · subst hk
        simp [hl]
      · simp [hl, hk, Ne.symm hk]
    · by_cases hk : k = l
      · subst hk
        simp [hl]
      · simp [hl, hk]

theorem clearMember_fixed {want cur : Json} {k : String}
    (h : want.get? k = none → cur.get? k = none) : clearMember want cur k = cur := by
  unfold clearMember
  cases hy : want.get? k with
  | none => exact Json.dropMember_of_get?_none (h hy)
  | some y => rfl

theorem clearMembers_fixed {keys : List String} {cur want : Json}
    (h : ∀ k ∈ keys, want.get? k = none → cur.get? k = none) :
    clearMembers keys cur want = cur := by
  induction keys with
  | nil => rfl
  | cons k keys ih =>
    rw [clearMembers_cons, clearMember_fixed (h k (by simp))]
    exact ih fun l hl => h l (List.mem_cons_of_mem _ hl)

theorem clearMembers_eq_arr {keys : List String} {cur want : Json} {xs : List Json}
    (h : clearMembers keys cur want = .arr xs) : cur = .arr xs := by
  induction keys generalizing cur with
  | nil => exact h
  | cons k keys ih =>
    have hstep : clearMember want cur k = .arr xs := ih h
    unfold clearMember at hstep
    cases hy : want.get? k with
    | none =>
      rw [hy] at hstep
      exact Json.dropMember_eq_arr hstep
    | some y =>
      rw [hy] at hstep
      exact hstep

theorem isObject_clearMembers (keys : List String) (cur want : Json) :
    (clearMembers keys cur want).isObject = cur.isObject := by
  induction keys generalizing cur with
  | nil => rfl
  | cons k keys ih =>
    rw [clearMembers_cons, ih]
    unfold clearMember
    cases want.get? k with
    | none => exact Json.isObject_dropMember cur k
    | some y => rfl

theorem covers_clearMembers (keys : List String) {c d : Json} (h : Covers c d) :
    Covers (clearMembers keys c d) d := by
  cases d with
  | obj ws =>
    have hobj : (clearMembers keys c (.obj ws)).isObject = true := by
      rw [isObject_clearMembers, h.isObject rfl]
    obtain ⟨ms, hms⟩ := Json.exists_obj_of_isObject hobj
    rw [hms, Json.covers_obj_iff]
    refine ⟨ms, rfl, ?_⟩
    intro k w hk
    have hsome : Json.get? (.obj ws) k = some w := hk
    obtain ⟨x, hx, hcov⟩ := h.get? hsome
    refine ⟨x, ?_, hcov⟩
    have hget := get?_clearMembers keys c (.obj ws) k
    rw [hms, hsome] at hget
    show Json.get? (.obj ms) k = some x
    simpa [hx] using hget
  | null | bool _ | int _ | double _ | str _ =>
    -- such a value is covered by itself alone, and has no members
    cases h
    rw [clearMembers_fixed (fun _ _ h => h)]
    exact .refl _
  | arr ws =>
    have harr : ∃ xs, c = .arr xs := by
      cases h with
      | refl => exact ⟨ws, rfl⟩
      | @entries xs => exact ⟨xs, rfl⟩
    obtain ⟨xs, rfl⟩ := harr
    rw [clearMembers_fixed (fun _ _ _ => rfl)]
    exact h

theorem trims_clearMembers (keys : List String) : Trims (clearMembers keys) where
  keeps := by
    intro c d k y hy
    rw [get?_clearMembers]
    simp [hy]
  drops := by
    intro c d k hc
    rw [get?_clearMembers, hc, ite_self]
  lists := fun _ _ _ h => clearMembers_eq_arr h
  covers := fun _ _ h => covers_clearMembers keys h
  self := fun _ => clearMembers_fixed fun _ _ h => h

/-! ## §3. Clearing by rows -/

/-- Clear the members of each row in turn. -/
def clearRows (rows : List OwnedMembers) (cur want : Json) : Json :=
  rows.foldl (fun cur row => Json.zipAlong (clearMembers row.keys) row.parent cur want) cur

theorem clearRows_cons (row : OwnedMembers) (rows : List OwnedMembers) (cur want : Json) :
    clearRows (row :: rows) cur want
      = clearRows rows (Json.zipAlong (clearMembers row.keys) row.parent cur want) want := rfl

theorem covers_clearRows {cur want : Json} (h : Covers cur want) (rows : List OwnedMembers) :
    Covers (clearRows rows cur want) want := by
  induction rows generalizing cur with
  | nil => exact h
  | cons row rows ih =>
    have hf := trims_clearMembers row.keys
    rw [clearRows_cons]
    exact ih (Json.Covers.zipAlong hf.covers hf.self row.parent h)

/-- One row keeps what another has replaced. -/
theorem replaced_clearRow {own : OwnedMembers} {cur want : Json} (h : own.Replaced cur want)
    (row : OwnedMembers) :
    own.Replaced (Json.zipAlong (clearMembers row.keys) row.parent cur want) want := by
  intro c d part k hk
  have hf := trims_clearMembers row.keys
  obtain ⟨b, hb, hc⟩ := hf.along_zipAlong row.parent part
  have hsame : b.get? k = d.get? k := h b d hb k hk
  -- the part is as it was, or was itself trimmed further in
  rcases hc with rfl | ⟨rest, rfl⟩
  · exact hsame
  · exact hf.get?_zipAlong_of_eq rest hsame

theorem replaced_clearRows {own : OwnedMembers} {cur want : Json} (h : own.Replaced cur want)
    (rows : List OwnedMembers) : own.Replaced (clearRows rows cur want) want := by
  induction rows generalizing cur with
  | nil => exact h
  | cons row rows ih =>
    rw [clearRows_cons]
    exact ih (replaced_clearRow h row)

/-- One row keeps what another has cleared. -/
theorem cleared_clearRow_of_cleared {own : OwnedMembers} {cur want : Json}
    (h : own.Cleared cur want) (row : OwnedMembers) :
    own.Cleared (Json.zipAlong (clearMembers row.keys) row.parent cur want) want := by
  intro c d part k hk hd
  have hf := trims_clearMembers row.keys
  obtain ⟨b, hb, hc⟩ := hf.along_zipAlong row.parent part
  have hnone : b.get? k = none := h b d hb k hk hd
  rcases hc with rfl | ⟨rest, rfl⟩
  · exact hnone
  · exact hf.get?_zipAlong_none rest hnone

theorem cleared_clearRows_of_cleared {own : OwnedMembers} {cur want : Json}
    (h : own.Cleared cur want) (rows : List OwnedMembers) :
    own.Cleared (clearRows rows cur want) want := by
  induction rows generalizing cur with
  | nil => exact h
  | cons row rows ih =>
    rw [clearRows_cons]
    exact ih (cleared_clearRow_of_cleared h row)

theorem cleared_clearRow (row : OwnedMembers) (cur want : Json) :
    row.Cleared (Json.zipAlong (clearMembers row.keys) row.parent cur want) want := by
  intro c d part k hk hd
  obtain ⟨b, _, rfl⟩ := Json.along_zipAlong part
  rw [get?_clearMembers, if_pos ⟨hk, hd⟩]

theorem cleared_clearRows {rows : List OwnedMembers} {row : OwnedMembers} (hrow : row ∈ rows)
    (cur want : Json) : row.Cleared (clearRows rows cur want) want := by
  induction rows generalizing cur with
  | nil => cases hrow
  | cons head rows ih =>
    rw [clearRows_cons]
    rcases List.mem_cons.mp hrow with rfl | htail
    · -- cleared by its own walk, and kept so by the rows after it
      exact cleared_clearRows_of_cleared (cleared_clearRow row cur want) rows
    · exact ih htail _

/-- Clearing depends on what the rows see of the desired value. -/
theorem clearRows_congr {rows : List OwnedMembers} {want other : Json}
    (same : ∀ row ∈ rows, ∀ v, Json.zipAlong (clearMembers row.keys) row.parent v want
      = Json.zipAlong (clearMembers row.keys) row.parent v other) (cur : Json) :
    clearRows rows cur want = clearRows rows cur other := by
  induction rows generalizing cur with
  | nil => rfl
  | cons row rows ih =>
    rw [clearRows_cons, clearRows_cons, same row (by simp)]
    exact ih (fun r hr => same r (List.mem_cons_of_mem _ hr)) _

theorem clearRows_fixed {rows : List OwnedMembers} {cur want : Json}
    (h : ∀ row ∈ rows, row.Cleared cur want) : clearRows rows cur want = cur := by
  induction rows with
  | nil => rfl
  | cons row rows ih =>
    have hstep : Json.zipAlong (clearMembers row.keys) row.parent cur want = cur :=
      Json.zipAlong_fixed fun c d part => clearMembers_fixed (h row (by simp) c d part)
    rw [clearRows_cons, hstep]
    exact ih fun r hr => h r (List.mem_cons_of_mem _ hr)

end Amend

end Converge
