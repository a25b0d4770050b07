/-
  Converge.Proofs.Json.Covers — what laying a value over another achieves.

  A value covers a desired one when it has everything the desired value asks for:
  objects member by member, non-empty lists of objects entry by entry, all else equal.
  For an orderly value this is the same as carrying it, since only equal values agree with one.

  Main statements:
    * `Orderly.carries_iff_covers` — what carries an orderly value covers it.
    * `overlay_covers` — laying an orderly value over any value covers it.
    * `overlay_of_covers` — over a value that covers it already, nothing changes.
-/
import Converge.Proofs.Json.Carries
import Converge.Proofs.Json.Orderly

namespace Converge.Json

/-! ## §1. Covering -/

/-- The first value has all that the second asks for. -/
inductive Covers : Json → Json → Prop
  | refl (v : Json) : Covers v v
  | obj {ms ws : Table String Json} (has : ∀ k, Table.has ws k = true → Table.has ms k = true)
      (each : ∀ k c w, Table.get? ms k = some c → Table.get? ws k = some w → Covers c w) :
      Covers (.obj ms) (.obj ws)
  | entries {xs ws : List Json} (entries : isEntryList ws = true) (length : xs.length = ws.length)
      (each : ∀ (i : Nat) c w, xs[i]? = some c → ws[i]? = some w → Covers c w) :
      Covers (.arr xs) (.arr ws)

theorem covers_obj_iff {v : Json} {ws : Table String Json} :
    Covers v (.obj ws) ↔ ∃ ms, v = .obj ms ∧
      ∀ k w, Table.get? ws k = some w → ∃ c, Table.get? ms k = some c ∧ Covers c w := by
  constructor
  · intro h
    cases h with
    | refl => exact ⟨ws, rfl, fun k w hw => ⟨w, hw, .refl w⟩⟩
    | @obj ms _ has each =>
      refine ⟨ms, rfl, ?_⟩
      intro k w hw
      obtain ⟨c, hc⟩ := Table.has_iff.mp (has k (Table.has_iff.mpr ⟨w, hw⟩))
      exact ⟨c, hc, each k c w hc hw⟩
  · rintro ⟨ms, rfl, h⟩
    refine .obj ?_ ?_
    · intro k hk
      obtain ⟨w, hw⟩ := Table.has_iff.mp hk
      obtain ⟨c, hc, _⟩ := h k w hw
      exact Table.has_iff.mpr ⟨c, hc⟩
    · intro k c w hc hw
      obtain ⟨d, hd, hcov⟩ := h k w hw
      rw [hc] at hd
      injection hd with hd
      exact hd ▸ hcov

theorem covers_entries_iff {v : Json} {ws : List Json} (entries : isEntryList ws = true) :
    Covers v (.arr ws) ↔ ∃ xs, v = .arr xs ∧ xs.length = ws.length ∧
      ∀ (i : Nat) c w, xs[i]? = some c → ws[i]? = some w → Covers c w := by
  constructor
  · intro h
    cases h with
    | refl =>
      refine ⟨ws, rfl, rfl, ?_⟩
      intro i c w hc hw
      rw [hc] at hw
      injection hw with hw
      exact hw ▸ .refl c
    | @entries xs _ _ length each => exact ⟨xs, rfl, length, each⟩
  · rintro ⟨xs, rfl, length, each⟩
    exact .entries entries length each

theorem Covers.eq_of_not_entries {v : Json} {ws : List Json} (h : Covers v (.arr ws))
    (other : isEntryList ws = false) : v = .arr ws := by
  cases h with
  | refl => rfl
  | entries entries => simp [entries] at other

/-- A member that is desired is there, and covers what is desired of it. -/
theorem Covers.get? {v w : Json} (h : Covers v w) {k : String} {y : Json}
    (hy : w.get? k = some y) : ∃ x, v.get? k = some x ∧ Covers x y := by
  cases w with
  | obj ws =>
    obtain ⟨ms, rfl, each⟩ := covers_obj_iff.mp h
    exact each k y hy
  | null | bool _ | int _ | double _ | str _ | arr _ => simp [Json.get?] at hy

theorem Covers.isObject {v w : Json} (h : Covers v w) (hw : w.isObject = true) :
    v.isObject = true := by
  cases w with
  | obj ws =>
    obtain ⟨ms, rfl, _⟩ := covers_obj_iff.mp h
    rfl
  | null | bool _ | int _ | double _ | str _ | arr _ => simp [Json.isObject] at hw

/-- What covers an entry with a name has that name. -/
theorem Covers.nameOf? {v w : Json} (h : Covers v w) {n : String} (hn : nameOf? w = some n) :
    nameOf? v = some n := by
  obtain ⟨x, hx, hcov⟩ := h.get? (nameOf?_eq_some_iff.mp hn)
  cases hcov with
  | refl => exact nameOf?_eq_some_iff.mpr hx

/-! ## §2. Covering and carrying -/

theorem Orderly.unambiguous {w : Json} (hw : Orderly w) : Unambiguous w := by
  induction hw with
  | null => exact .null
  | bool b => exact .bool b
  | int n => exact .int n
  | str s => exact .str s
  | arr names _ ih => exact .arr names ih
  | obj order _ ih => exact .obj order.nodup ih

theorem Orderly.agrees_iff {w : Json} (hw : Orderly w) (v : Json) : v.agrees w = true ↔ v = w :=
  ⟨hw.eq_of_agrees v, fun h => h ▸ agrees_refl v⟩

theorem covers_scalar_iff {v w : Json} (hw : w.isObject = false) (hw' : ∀ ws, w ≠ .arr ws) :
    Covers v w ↔ v = w := by
  constructor
  · intro h
    cases h with
    | refl => rfl
    | obj => simp [isObject] at hw
    | entries => exact absurd rfl (hw' _)
  · rintro rfl
    exact .refl v

theorem Orderly.carries_scalar_iff {w : Json} (h : Orderly w) (hw : w.isObject = false)
    (hw' : ∀ ws, w ≠ .arr ws) (v : Json) : v.carries w = true ↔ Covers v w := by
  rw [carries_scalar v hw hw', h.agrees_iff, covers_scalar_iff hw hw']

theorem Orderly.carries_iff_covers {w : Json} (hw : Orderly w) :
    ∀ v : Json, v.carries w = true ↔ Covers v w := by
  induction hw with
  | null => exact Orderly.null.carries_scalar_iff rfl nofun
  | bool b => exact (Orderly.bool b).carries_scalar_iff rfl nofun
  | int n => exact (Orderly.int n).carries_scalar_iff rfl nofun
  | str s => exact (Orderly.str s).carries_scalar_iff rfl nofun
  | @arr ws names each ih =>
    intro v
    by_cases hent : isEntryList ws = true
    · rw [carries_entries_iff hent, covers_entries_iff hent]
      refine exists_congr fun xs => and_congr_right fun _ => and_congr_right fun _ => ?_
      refine forall_congr' fun i => forall_congr' fun c => forall_congr' fun w => ?_
      exact imp_congr_right fun _ => imp_congr_right fun hw => ih w (List.mem_of_getElem? hw) c
    · have hother : isEntryList ws = false := by simpa using hent
      rw [carries_arr_of_not_entries v hother, (Orderly.arr names each).agrees_iff]
      exact ⟨fun h => h ▸ .refl v, fun h => h.eq_of_not_entries hother⟩
  | @obj ws order each ih =>
    intro v
    rw [carries_obj_iff, covers_obj_iff]
    refine exists_congr fun ms => and_congr_right fun _ => ?_
    constructor
    · intro h k w hk
      obtain ⟨c, hc, hcarries⟩ := h (k, w) (Table.mem_of_get? hk)
      exact ⟨c, hc, (ih (k, w) (Table.mem_of_get? hk) c).mp hcarries⟩
    · rintro h ⟨k, w⟩ he
      obtain ⟨c, hc, hcovers⟩ := h k w (Table.get?_of_mem order.nodup he)
      exact ⟨c, hc, (ih (k, w) he c).mpr hcovers⟩

/-! ## §3. Laying over covers -/

theorem overlay_covers {w : Json} (hw : Orderly w) (v : Json) : Covers (overlay v w).1 w :=
  (hw.carries_iff_covers _).mp (hw.unambiguous.overlay_carries v)

/-! ## §4. Over what covers, nothing changes -/

theorem overlayMembers_of_fixed {ms ws : Table String Json}
    (fixed : ∀ e ∈ ws, ∃ c, Table.get? ms e.1 = some c ∧ (overlay c e.2).1 = c) :
    (overlayMembers ms ws).1 = ms := by
  induction ws with
  | nil => rfl
  | cons e rest ih =>
    obtain ⟨a, v⟩ := e
    obtain ⟨c, hc, hfix⟩ := fixed (a, v) (by simp)
    rw [overlayMembers]
    simp only [hc, hfix, Table.insert_of_get? hc]
    exact ih fun e he => fixed e (List.mem_cons_of_mem _ he)

/-- Entries that line up already are paired with the entries at their own positions. -/
theorem beneath_of_lined_up {xs ws : List Json} (length : xs.length = ws.length)
    (each : ∀ (i : Nat) c w, xs[i]? = some c → ws[i]? = some w → Covers c w)
    (names : allNamed ws = true → (ws.map nameOf?).Nodup) {i : Nat} {c w : Json}
    (hc : xs[i]? = some c) (hw : ws[i]? = some w) : beneath xs (allNamed ws) i w = c := by
  refine beneath_of_named_alike length ?_ names hc hw
  intro hall j d y hd hy
  have hsome : (nameOf? y).isSome = true :=
    List.all_eq_true.mp hall y (List.mem_of_getElem? hy)
  obtain ⟨n, hn⟩ := Option.isSome_iff_exists.mp hsome
  rw [hn]
  exact (each j d y hd hy).nameOf? hn

theorem overlay_of_covers {w : Json} (hw : Orderly w) (v : Json) (h : Covers v w) :
    (overlay v w).1 = v :=
  congrArg Prod.fst (hw.unambiguous.overlay_of_carries ((hw.carries_iff_covers v).mpr h))

end Converge.Json
