/-
  Converge.Proofs.Json.Orderly — values that can be laid over others without doubt.

  A value is orderly when the members of its objects ascend, entries that are paired by
  name have names of their own, and no number is a floating-point number.

  Main statements:
    * `Orderly.eq_of_agrees` — what agrees with an orderly value is equal to it.
    * `Orderly.swap_fst` — replacing by an orderly value leaves that value.
    * `orderly_ofTexts`, `orderly_ofStrings` — the usual parts are orderly.
-/
import Converge.Json.Overlay
import Converge.Proofs.Table.Ascending

namespace Converge.Json

/-! ## §1. Orderly values -/

/-- Members ascend, entries paired by name have distinct names, and numbers are whole. -/
inductive Orderly : Json → Prop
  | null : Orderly .null
  | bool (b : Bool) : Orderly (.bool b)
  | int (n : Int) : Orderly (.int n)
  | str (s : String) : Orderly (.str s)
  | arr {xs : List Json} (names : allNamed xs = true → (xs.map nameOf?).Nodup)
      (each : ∀ x ∈ xs, Orderly x) : Orderly (.arr xs)
  | obj {ms : Table String Json} (order : Table.Ascending ms) (each : ∀ e ∈ ms, Orderly e.2) :
      Orderly (.obj ms)

/-! ## §2. Agreement with an orderly value -/

theorem eq_of_agreeItems {xs ys : List Json}
    (each : ∀ y ∈ ys, ∀ x : Json, x.agrees y = true → x = y) (h : agreeItems xs ys = true) :
    xs = ys := by
  induction xs generalizing ys with
  | nil =>
    cases ys with
    | nil => rfl
    | cons y ys => simp [agreeItems] at h
  | cons x xs ih =>
    cases ys with
    | nil => simp [agreeItems] at h
    | cons y ys =>
      simp only [agreeItems, Bool.and_eq_true] at h
      have hx : x = y := each y (by simp) x h.1
      have hxs : xs = ys := ih (fun z hz => each z (List.mem_cons_of_mem _ hz)) h.2
      rw [hx, hxs]

theorem eq_of_agreeMembers {ms ns : List (String × Json)}
    (each : ∀ e ∈ ns, ∀ x : Json, x.agrees e.2 = true → x = e.2)
    (h : agreeMembers ms ns = true) : ms = ns := by
  induction ms generalizing ns with
  | nil =>
    cases ns with
    | nil => rfl
    | cons e ns => simp [agreeMembers] at h
  | cons d ms ih =>
    obtain ⟨k, v⟩ := d
    cases ns with
    | nil => simp [agreeMembers] at h
    | cons e ns =>
      obtain ⟨l, w⟩ := e
      simp only [agreeMembers, Bool.and_eq_true, beq_iff_eq] at h
      have hv : v = w := each (l, w) (by simp) v h.1.2
      have hms : ms = ns := ih (fun f hf => each f (List.mem_cons_of_mem _ hf)) h.2
      rw [h.1.1, hv, hms]

/-- What agrees with an orderly value is equal to it. -/
theorem Orderly.eq_of_agrees {w : Json} (hw : Orderly w) :
    ∀ v : Json, v.agrees w = true → v = w := by
  induction hw with
  | null => intro v h; cases v <;> simp_all [agrees]
  | bool b => intro v h; cases v <;> simp_all [agrees]
  | int n => intro v h; cases v <;> simp_all [agrees]
  | str s => intro v h; cases v <;> simp_all [agrees]
  | arr names each ih =>
    intro v h
    cases v with
    | arr ys =>
      rw [agrees] at h
      rw [eq_of_agreeItems ih h]
    | null | bool _ | int _ | double _ | str _ | obj _ => simp [agrees] at h
  | obj order each ih =>
    intro v h
    cases v with
    | obj ns =>
      rw [agrees] at h
      rw [eq_of_agreeMembers ih h]
    | null | bool _ | int _ | double _ | str _ | arr _ => simp [agrees] at h

/-- Replacing by an orderly value leaves that value. -/
theorem Orderly.swap_fst {w : Json} (hw : Orderly w) (v : Json) : (swap v w).1 = w := by
  unfold swap
  split
  · rename_i h
    exact hw.eq_of_agrees v h
  · rfl

/-! ## §3. Usual parts -/

/-- Texts ascend as the table they are written from. -/
theorem orderly_ofTexts {m : Table String String} (h : Table.Ascending m) :
    Orderly (ofTexts m) := by
  refine .obj ?_ ?_
  · unfold Table.Ascending at h ⊢
    have hk : Table.keys (m.map fun e => (e.1, Json.str e.2)) = Table.keys m := by
      simp [Table.keys]
    rw [hk]
    exact h
  · intro e he
    obtain ⟨d, _, rfl⟩ := List.mem_map.mp he
    exact .str d.2

/-- Texts have no names, so a list of texts is orderly. -/
theorem orderly_ofStrings (xs : List String) : Orderly (ofStrings xs) := by
  refine .arr ?_ ?_
  · intro named
    cases xs with
    | nil => exact List.nodup_nil
    | cons s rest => simp [allNamed, nameOf?, get?] at named
  · intro x hx
    obtain ⟨s, _, rfl⟩ := List.mem_map.mp hx
    exact .str s

/-- A list of objects without names is orderly when its entries are. -/
theorem orderly_unnamed {xs : List Json} (unnamed : ∀ x ∈ xs, nameOf? x = none)
    (each : ∀ x ∈ xs, Orderly x) : Orderly (.arr xs) := by
  refine .arr ?_ each
  intro named
  cases xs with
  | nil => exact List.nodup_nil
  | cons x rest =>
    have hx : nameOf? x = none := unnamed x (by simp)
    simp [allNamed, hx] at named

end Converge.Json
