/-
  Converge.Proofs.Json.Written — what is read from written members.

  A record is read by looking its members up, so that reading what was written comes down to what
  each look-up finds: the member, or nothing where the member is left out, which then reads as the
  value that was left out.  The rules below say so for each form of member.  Once the members of a
  record are looked up, they read it back without more being said about the record.

  Main statements: `elim_text`, `elim_optional`, `elim_list` — a member that was written in one of
  these forms is read back.
-/
import Converge.Proofs.Json.Records

namespace Converge.Json

variable {α : Type}

/-! ## §1. Numbers -/

theorem int32?_ofInt32 (n : Int32) : int32? (ofInt32 n) = some n := by
  show (if _ then some (Int32.ofInt n.toInt) else none) = some n
  rw [if_pos ⟨n.minValue_le_toInt, n.toInt_le⟩, Int32.ofInt_toInt]

theorem int64?_toInt (n : Int64) : int64? (.int n.toInt) = some n := by
  show (if _ then some (Int64.ofInt n.toInt) else none) = some n
  rw [if_pos ⟨n.minValue_le_toInt, n.toInt_le⟩, Int64.ofInt_toInt]

/-! ## §2. Members -/

/-- A member is read from what the look-up of its name finds. -/
theorem field_eq_elim (ms : Table String Json) (k : String) (absent : Option α)
    (f : Json → Option α) : field ms k absent f = (Table.get? ms k).elim absent f := by
  unfold field
  cases Table.get? ms k with
  | none => rfl
  | some v => rfl

/-- An empty text was left out. -/
theorem elim_text (s : String) :
    (if s = "" then none else some (str s)).elim (some "") text? = some s := by
  split
  · rename_i h
    rw [h]
    rfl
  · rfl

/-- An empty list was left out. -/
theorem elim_list {f : Json → Option α} {g : α → Json} (back : ∀ x, f (g x) = some x)
    (xs : List α) :
    (if xs = [] then none else some (arr (xs.map g))).elim (some []) (listOf? f) = some xs := by
  split
  · rename_i h
    rw [h]
    rfl
  · exact items?_map back xs

/-- A value that may be missing is read back, if its reader does not take `null`. -/
theorem elim_optional {f : Json → Option α} {g : α → Json} (back : ∀ x, f (g x) = some x)
    (solid : f null = none) (o : Option α) :
    (o.map g).elim (some none) (nullable f) = some o := by
  cases o with
  | none => rfl
  | some x =>
    show nullable f (g x) = some (some x)
    have hx := back x
    cases h : g x with
    | null =>
      rw [h, solid] at hx
      exact absurd hx nofun
    | bool | int | double | str | arr | obj =>
      show (f _).map some = some (some x)
      rw [← h, hx]
      rfl

/-- A table of texts is read back; an empty one was left out. -/
theorem elim_texts (m : Table String String) :
    (if m = [] then none else some (ofTexts m)).elim (some []) texts? = some m := by
  split
  · rename_i h
    rw [h]
    rfl
  · exact texts?_ofTexts m

end Converge.Json
