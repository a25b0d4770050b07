/-
  Converge.Proofs.Json.Laid — what laying a value over another gives, part by part.

  An object has each desired member laid over the current one, and all its other members.  A list
  has each desired entry laid over its partner, or over an empty object.  Anything else takes the
  place of what was there.

  Main statements:
    * `get?_overlayMembers`, `get?_overlay_obj` — the members of the outcome.
    * `getElem?_overlayItems` — the entries of the outcome.
    * `partner?_of_named_alike` — entries with the names of the desired ones, in their order, are
      paired with the entries at their own positions.
-/
import Converge.Json.Overlay
import Converge.Proofs.Table.Ascending

namespace Converge.Json

/-! ## §1. Shapes and names -/

theorem exists_obj_of_isObject {v : Json} (h : v.isObject = true) : ∃ ms, v = .obj ms := by
  cases v with
  | obj ms => exact ⟨ms, rfl⟩
  | null | bool _ | int _ | double _ | str _ | arr _ => simp [Json.isObject] at h

theorem nameOf?_eq_some_iff {v : Json} {n : String} :
    nameOf? v = some n ↔ v.get? "name" = some (.str n) := by
  unfold nameOf?
  cases h : v.get? "name" with
  | none => simp
  | some x => cases x <;> simp [text?]

/-! ## §2. The outcome -/

/-- The part that results from laying `w` over a part that may be missing. -/
def laid (slot : Option Json) (w : Json) : Json :=
  match slot with
  | some c => (overlay c w).1
  | none => w

/-- The entry over which an entry at position `i` is laid. -/
def beneath (xs : List Json) (named : Bool) (i : Nat) (w : Json) : Json :=
  match partner? xs named i w with
  | some p => xs.getD p .null
  | none => .obj []

theorem overlay_scalar (v : Json) {w : Json} (hw : w.isObject = false) (hw' : ∀ ws, w ≠ .arr ws) :
    overlay v w = swap v w := by
  cases w with
  | obj ws => simp [isObject] at hw
  | arr ws => exact absurd rfl (hw' ws)
  | null | bool _ | int _ | double _ | str _ => simp [overlay]

theorem overlay_obj (ms ws : Table String Json) :
    (overlay (.obj ms) (.obj ws)).1 = .obj (overlayMembers ms ws).1 := by
  rw [overlay]

theorem overlay_obj_of_not_object {v : Json} (hv : v.isObject = false) (ws : Table String Json) :
    (overlay v (.obj ws)).1 = .obj ws := by
  cases v with
  | obj ms => simp [isObject] at hv
  | null | bool _ | int _ | double _ | str _ | arr _ => simp [overlay, swap, agrees]

theorem overlay_entries (xs : List Json) {ws : List Json} (entries : isEntryList ws = true) :
    (overlay (.arr xs) (.arr ws)).1 = .arr (overlayItems xs (allNamed ws) 0 ws).1 := by
  rw [overlay]
  simp [entries]

theorem overlay_arr_of_not_entries (v : Json) {ws : List Json} (other : isEntryList ws = false) :
    overlay v (.arr ws) = swap v (.arr ws) := by
  cases v <;> simp [overlay, other]

theorem overlay_arr_of_not_arr {v : Json} (hv : ∀ xs, v ≠ .arr xs) (ws : List Json) :
    (overlay v (.arr ws)).1 = .arr ws := by
  cases v with
  | arr xs => exact absurd rfl (hv xs)
  | null | bool _ | int _ | double _ | str _ | obj _ => simp [overlay, swap, agrees]

/-- After laying members over members, a member that is not desired is as before, a desired
    one is laid over what was there. -/
theorem get?_overlayMembers {ws : Table String Json} (once : (Table.keys ws).Nodup)
    (ms : Table String Json) (k : String) :
    Table.get? (overlayMembers ms ws).1 k = match Table.get? ws k with
      | none => Table.get? ms k
      | some w => some (laid (Table.get? ms k) w) := by
  induction ws generalizing ms with
  | nil => rw [overlayMembers]; rfl
  | cons e rest ih =>
    obtain ⟨a, v⟩ := e
    obtain ⟨hna, hrest⟩ := List.nodup_cons.mp once
    have step : (overlayMembers ms ((a, v) :: rest)).1
        = (overlayMembers (Table.insert ms a (laid (Table.get? ms a) v)) rest).1 := by
      rw [overlayMembers]
      cases Table.get? ms a <;> rfl
    rw [step, ih hrest, Table.get?_insert, Table.get?_cons]
    by_cases ha : a = k
    · subst ha
      simp [Table.get?_of_not_mem hna]
    · simp [ha]

/-- Laying members over any value does so member by member; what is no object has none. -/
theorem get?_overlay_obj {ws : Table String Json} (once : (Table.keys ws).Nodup) (v : Json)
    (k : String) : (overlay v (.obj ws)).1.get? k = match Table.get? ws k with
      | none => v.get? k
      | some w => some (laid (v.get? k) w) := by
  cases v with
  | obj ms =>
    rw [overlay_obj]
    exact get?_overlayMembers once ms k
  | null | bool _ | int _ | double _ | str _ | arr _ =>
    rw [overlay_obj_of_not_object rfl]
    show Table.get? ws k = _
    cases Table.get? ws k <;> rfl

theorem length_overlayItems (xs : List Json) (named : Bool) (i : Nat) (ws : List Json) :
    (overlayItems xs named i ws).1.length = ws.length := by
  induction ws generalizing i with
  | nil => rfl
  | cons w rest ih =>
    rw [overlayItems]
    cases partner? xs named i w <;> simp [ih]

theorem getElem?_overlayItems (xs : List Json) (named : Bool) (i : Nat) (ws : List Json) (j : Nat) :
    (overlayItems xs named i ws).1[j]?
      = ws[j]?.map fun w => (overlay (beneath xs named (i + j) w) w).1 := by
  induction ws generalizing i j with
  | nil => simp [overlayItems]
  | cons w rest ih =>
    have step : (overlayItems xs named i (w :: rest)).1
        = (overlay (beneath xs named i w) w).1 :: (overlayItems xs named (i + 1) rest).1 := by
      rw [overlayItems]
      unfold beneath
      cases partner? xs named i w <;> rfl
    rw [step]
    cases j with
    | zero => rfl
    | succ j =>
      rw [List.getElem?_cons_succ, List.getElem?_cons_succ, ih]
      have hij : i + 1 + j = i + (j + 1) := by omega
      rw [hij]

/-! ## §3. Partners -/

/-- Entries that have the names of the desired ones, and in the same order, are paired with
    the entries at their own positions. -/
theorem partner?_of_named_alike {xs ws : List Json} (length : xs.length = ws.length)
    (alike : allNamed ws = true → ∀ (i : Nat) c w, xs[i]? = some c → ws[i]? = some w →
      nameOf? c = nameOf? w)
    (names : allNamed ws = true → (ws.map nameOf?).Nodup) {i : Nat} {c w : Json}
    (hc : xs[i]? = some c) (hw : ws[i]? = some w) : partner? xs (allNamed ws) i w = some i := by
  have hlt : i < xs.length := (List.getElem?_eq_some_iff.mp hc).1
  unfold partner?
  cases hall : allNamed ws with
  | false => simp [hlt]
  | true =>
    -- the entry at the position has the name that is looked for, and is the first that has it
    simp only [if_true]
    rw [List.findIdx?_eq_some_iff_getElem]
    refine ⟨hlt, ?_, ?_⟩
    · have hxi : xs[i] = c := by
        have := List.getElem?_eq_getElem hlt
        rw [hc] at this
        exact (Option.some.inj this).symm
      rw [hxi, alike hall i c w hc hw]
      exact beq_self_eq_true _
    · -- an earlier entry has the name of an earlier desired one, which is another name
      intro j hji
      have hjx : j < xs.length := Nat.lt_trans hji hlt
      have hjw : j < ws.length := length ▸ hjx
      have hy : ws[j]? = some ws[j] := List.getElem?_eq_getElem hjw
      have hne : nameOf? ws[j] ≠ nameOf? w := by
        have hj : j < (ws.map nameOf?).length := by
          rw [List.length_map]
          exact hjw
        intro hsame
        have hinj : j = i := by
          refine (List.getElem?_inj hj (names hall)).mp ?_
          rw [List.getElem?_map, List.getElem?_map, hy, hw]
          exact congrArg some hsame
        omega
      rw [alike hall j xs[j] ws[j] (List.getElem?_eq_getElem hjx) hy]
      simpa using hne

theorem beneath_of_named_alike {xs ws : List Json} (length : xs.length = ws.length)
    (alike : allNamed ws = true → ∀ (i : Nat) c w, xs[i]? = some c → ws[i]? = some w →
      nameOf? c = nameOf? w)
    (names : allNamed ws = true → (ws.map nameOf?).Nodup) {i : Nat} {c w : Json}
    (hc : xs[i]? = some c) (hw : ws[i]? = some w) : beneath xs (allNamed ws) i w = c := by
  unfold beneath
  rw [partner?_of_named_alike length alike names hc hw]
  show xs.getD i .null = c
  rw [List.getD_eq_getElem?_getD, hc]
  rfl

end Converge.Json
