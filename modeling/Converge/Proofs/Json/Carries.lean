/-
  Converge.Proofs.Json.Carries — what the mark of laying a value over another tells.

  A value carries a desired one when it has all that is asked for.  Laying over sets a mark at each
  step that changes something, and the mark of the whole is gathered apart from the value.  It is
  exact all the same: it is set when the outcome differs from what was there, and that is when
  what was there did not carry the desired value.

  Entries that move are marked without being compared.  That this is right, too, rests on their
  names: had an entry that moved left the list as it was, its name would be on two entries.

  Main statements:
    * `overlay_fst_of_unmarked` — without a mark nothing has changed.
    * `Unambiguous.overlay_carries` — the outcome carries the desired value.
    * `Unambiguous.overlay_of_carries` — over a value that carries it already, nothing changes.
    * `overlay_marks_change` — the mark is exact.
-/
import Converge.Proofs.Json.Laid

namespace Converge.Json

variable {v w x y : Json} {ms ns ws : Table String Json} {xs ys : List Json}

/-! ## §1. Agreement -/

mutual

theorem agrees_trans : (u v w : Json) → u.agrees v = true → v.agrees w = true → u.agrees w = true
  | .null, v, w, huv, hvw | .bool _, v, w, huv, hvw | .int _, v, w, huv, hvw
  | .str _, v, w, huv, hvw => by
    simp only [agrees, decide_eq_true_eq] at huv
    exact huv ▸ hvw
  | .double x, v, w, huv, hvw => by
    cases v with
    | double y =>
      cases w with
      | double z => simp only [agrees, Double.agrees] at *; grind
      | null | bool _ | int _ | str _ | arr _ | obj _ => simp [agrees] at hvw
    | null | bool _ | int _ | str _ | arr _ | obj _ => simp [agrees] at huv
  | .arr xs, v, w, huv, hvw => by
    cases v with
    | arr ys =>
      cases w with
      | arr zs => exact agreeItems_trans xs ys zs huv hvw
      | null | bool _ | int _ | double _ | str _ | obj _ => simp [agrees] at hvw
    | null | bool _ | int _ | double _ | str _ | obj _ => simp [agrees] at huv
  | .obj ms, v, w, huv, hvw => by
    cases v with
    | obj ns =>
      cases w with
      | obj os => exact agreeMembers_trans ms ns os huv hvw
      | null | bool _ | int _ | double _ | str _ | arr _ => simp [agrees] at hvw
    | null | bool _ | int _ | double _ | str _ | arr _ => simp [agrees] at huv
termination_by structural u => u

theorem agreeItems_trans : (xs ys zs : List Json) → agreeItems xs ys = true →
    agreeItems ys zs = true → agreeItems xs zs = true
  | [], ys, zs, hxy, hyz => by
    cases ys with
    | nil => exact hyz
    | cons y ys => simp [agreeItems] at hxy
  | x :: xs, ys, zs, hxy, hyz => by
    cases ys with
    | nil => simp [agreeItems] at hxy
    | cons y ys =>
      cases zs with
      | nil => simp [agreeItems] at hyz
      | cons z zs =>
        simp only [agreeItems, Bool.and_eq_true] at hxy hyz ⊢
        exact ⟨agrees_trans x y z hxy.1 hyz.1, agreeItems_trans xs ys zs hxy.2 hyz.2⟩
termination_by structural xs => xs

theorem agreeMembers_trans : (ms ns os : List (String × Json)) → agreeMembers ms ns = true →
    agreeMembers ns os = true → agreeMembers ms os = true
  | [], ns, os, hmn, hno => by
    cases ns with
    | nil => exact hno
    | cons e ns => simp [agreeMembers] at hmn
  | (k, v) :: ms, ns, os, hmn, hno => by
    cases ns with
    | nil => simp [agreeMembers] at hmn
    | cons e ns =>
      cases os with
      | nil => simp [agreeMembers] at hno
      | cons f os =>
        simp only [agreeMembers, Bool.and_eq_true, beq_iff_eq] at hmn hno ⊢
        exact ⟨⟨hmn.1.1.trans hno.1.1, agrees_trans v e.2 f.2 hmn.1.2 hno.1.2⟩,
          agreeMembers_trans ms ns os hmn.2 hno.2⟩
termination_by structural ms => ms

end

theorem eq_of_agrees_str {s : String} (h : v.agrees (.str s) = true) : v = .str s := by
  cases v <;> simp_all [agrees]

theorem exists_arr_of_agrees (h : v.agrees (.arr ys) = true) :
    ∃ xs, v = .arr xs ∧ agreeItems xs ys = true := by
  cases v with
  | arr xs => exact ⟨xs, rfl, h⟩
  | null | bool _ | int _ | double _ | str _ | obj _ => simp [agrees] at h

theorem exists_obj_of_agrees (h : v.agrees (.obj ns) = true) :
    ∃ ms, v = .obj ms ∧ agreeMembers ms ns = true := by
  cases v with
  | obj ms => exact ⟨ms, rfl, h⟩
  | null | bool _ | int _ | double _ | str _ | arr _ => simp [agrees] at h

theorem get?_of_agreeMembers (h : agreeMembers ms ns = true) {k : String}
    (hy : Table.get? ns k = some y) : ∃ x, Table.get? ms k = some x ∧ x.agrees y = true := by
  induction ms generalizing ns with
  | nil =>
    cases ns with
    | nil => cases hy
    | cons e ns => simp [agreeMembers] at h
  | cons d ms ih =>
    obtain ⟨a, x⟩ := d
    cases ns with
    | nil => cases hy
    | cons e ns =>
      obtain ⟨b, z⟩ := e
      simp only [agreeMembers, Bool.and_eq_true, beq_iff_eq] at h
      obtain ⟨⟨rfl, hx⟩, hrest⟩ := h
      rw [Table.get?_cons] at hy ⊢
      split at hy
      · rename_i hk
        rw [if_pos hk]
        exact ⟨x, rfl, Option.some.inj hy ▸ hx⟩
      · rename_i hk
        rw [if_neg hk]
        exact ih hrest hy

theorem swap_agrees (v w : Json) : (swap v w).1.agrees w = true := by
  unfold swap
  split
  · rename_i h
    exact h
  · exact agrees_refl w

theorem swap_snd (v w : Json) : (swap v w).2 = !v.agrees w := by
  unfold swap
  cases v.agrees w <;> rfl

theorem swap_fst_of_unmarked (h : (swap v w).2 = false) : (swap v w).1 = v := by
  rw [swap_snd, Bool.not_eq_false'] at h
  exact congrArg Prod.fst (if_pos h)

/-! ## §2. Carrying -/

mutual

/-- Whether a value carries all that a desired one asks for: every desired member, the entries of
    a list of objects one by one, and anything else as it is. -/
def carries (cur : Json) : Json → Bool
  | .obj want => match cur with
    | .obj ms => carriesMembers ms want
    | _ => false
  | .arr want => match cur with
    | .arr xs => if isEntryList want then carriesItems xs want else agreeItems xs want
    | _ => false
  | want => cur.agrees want
termination_by structural want => want

/-- Whether members carry all desired ones. -/
def carriesMembers (cur : List (String × Json)) : List (String × Json) → Bool
  | [] => true
  | (k, v) :: rest => (match Table.get? cur k with
      | some slot => carries slot v
      | none => false) && carriesMembers cur rest
termination_by structural want => want

/-- Whether there are as many entries as desired, each carrying the one at its place. -/
def carriesItems (cur : List Json) : List Json → Bool
  | [] => cur.isEmpty
  | w :: rest => match cur with
    | [] => false
    | x :: xs => carries x w && carriesItems xs rest
termination_by structural want => want

end

theorem carriesMembers_iff : carriesMembers ms ws = true ↔
    ∀ e ∈ ws, ∃ c, Table.get? ms e.1 = some c ∧ c.carries e.2 = true := by
  induction ws with
  | nil => simp [carriesMembers]
  | cons e rest ih =>
    obtain ⟨k, w⟩ := e
    rw [carriesMembers, Bool.and_eq_true, ih, List.forall_mem_cons]
    cases Table.get? ms k <;> simp

theorem carriesItems_iff : carriesItems xs ys = true ↔ xs.length = ys.length ∧
    ∀ (i : Nat) c w, xs[i]? = some c → ys[i]? = some w → c.carries w = true := by
  induction ys generalizing xs with
  | nil => simp [carriesItems]
  | cons w rest ih =>
    cases xs with
    | nil => simp [carriesItems]
    | cons x xs =>
      simp only [carriesItems, Bool.and_eq_true, ih, List.length_cons, Nat.add_right_cancel_iff]
      constructor
      · rintro ⟨hx, hlen, each⟩
        refine ⟨hlen, ?_⟩
        intro i c d hc hd
        cases i with
        | zero => simp_all
        | succ i => exact each i c d hc hd
      · rintro ⟨hlen, each⟩
        exact ⟨each 0 x w rfl rfl, hlen, fun i c d hc hd => each (i + 1) c d hc hd⟩

theorem carries_obj_iff : v.carries (.obj ws) = true ↔ ∃ ms, v = .obj ms ∧
    ∀ e ∈ ws, ∃ c, Table.get? ms e.1 = some c ∧ c.carries e.2 = true := by
  cases v with
  | obj ms => simp [carries, carriesMembers_iff]
  | null | bool _ | int _ | double _ | str _ | arr _ => simp [carries]

theorem carries_entries_iff (entries : isEntryList ys = true) :
    v.carries (.arr ys) = true ↔ ∃ xs, v = .arr xs ∧ xs.length = ys.length ∧
      ∀ (i : Nat) c w, xs[i]? = some c → ys[i]? = some w → c.carries w = true := by
  cases v with
  | arr xs => simp [carries, entries, carriesItems_iff]
  | null | bool _ | int _ | double _ | str _ | obj _ => simp [carries]

theorem carries_arr_of_not_entries (v : Json) (other : isEntryList ys = false) :
    v.carries (.arr ys) = v.agrees (.arr ys) := by
  cases v <;> simp [carries, other, agrees]

theorem carries_scalar (v : Json) (hw : w.isObject = false) (hw' : ∀ ys, w ≠ .arr ys) :
    v.carries w = v.agrees w := by
  cases w with
  | obj ws => simp [isObject] at hw
  | arr ys => exact absurd rfl (hw' ys)
  | null | bool _ | int _ | double _ | str _ => simp [carries]

/-- What carries an entry with a name has that name. -/
theorem nameOf?_of_carries (h : v.carries w = true) {n : String} (hn : nameOf? w = some n) :
    nameOf? v = some n := by
  have hw := nameOf?_eq_some_iff.mp hn
  cases w with
  | obj ws =>
    obtain ⟨ms, rfl, each⟩ := carries_obj_iff.mp h
    obtain ⟨c, hc, hcarries⟩ := each ("name", .str n) (Table.mem_of_get? hw)
    rw [carries_scalar c rfl (by simp)] at hcarries
    rw [nameOf?_eq_some_iff, ← eq_of_agrees_str hcarries]
    exact hc
  | null | bool _ | int _ | double _ | str _ | arr _ => simp [Json.get?] at hw

mutual

/-- What agrees with a value that carries the desired one carries it, too. -/
theorem carries_of_agrees : (w v x : Json) → v.agrees x = true → x.carries w = true →
    v.carries w = true
  | .obj ws, v, x, hvx, hx => by
    cases x with
    | obj ns =>
      obtain ⟨ms, rfl, hmn⟩ := exists_obj_of_agrees hvx
      exact carriesMembers_of_agrees ws ms ns hmn hx
    | null | bool _ | int _ | double _ | str _ | arr _ => simp [carries] at hx
  | .arr ws, v, x, hvx, hx => by
    cases x with
    | arr ys =>
      obtain ⟨xs, rfl, hxy⟩ := exists_arr_of_agrees hvx
      rw [carries] at hx ⊢
      split
      · rename_i hent
        exact carriesItems_of_agrees ws xs ys hxy (by simpa [hent] using hx)
      · rename_i hent
        exact agreeItems_trans xs ys ws hxy (by simpa [hent] using hx)
    | null | bool _ | int _ | double _ | str _ | obj _ => simp [carries] at hx
  | .null, v, x, hvx, hx | .bool _, v, x, hvx, hx | .int _, v, x, hvx, hx
  | .double _, v, x, hvx, hx | .str _, v, x, hvx, hx => by
    rw [carries_scalar _ rfl (by simp)] at hx ⊢
    exact agrees_trans v x _ hvx hx
termination_by structural w => w

theorem carriesMembers_of_agrees : (ws ms ns : List (String × Json)) →
    agreeMembers ms ns = true → carriesMembers ns ws = true → carriesMembers ms ws = true
  | [], _, _, _, _ => by rw [carriesMembers]
  | (k, w) :: rest, ms, ns, hmn, h => by
    rw [carriesMembers, Bool.and_eq_true] at h ⊢
    obtain ⟨hk, hrest⟩ := h
    refine ⟨?_, carriesMembers_of_agrees rest ms ns hmn hrest⟩
    cases hy : Table.get? ns k with
    | none => simp [hy] at hk
    | some y =>
      obtain ⟨x, hx, hxy⟩ := get?_of_agreeMembers hmn hy
      rw [hy] at hk
      rw [hx]
      exact carries_of_agrees w x y hxy hk
termination_by structural ws => ws

theorem carriesItems_of_agrees : (ws xs ys : List Json) → agreeItems xs ys = true →
    carriesItems ys ws = true → carriesItems xs ws = true
  | [], xs, ys, hxy, h => by
    cases ys with
    | nil =>
      cases xs with
      | nil => rfl
      | cons x xs => simp [agreeItems] at hxy
    | cons y ys => simp [carriesItems] at h
  | w :: rest, xs, ys, hxy, h => by
    cases ys with
    | nil => simp [carriesItems] at h
    | cons y ys =>
      cases xs with
      | nil => simp [agreeItems] at hxy
      | cons x xs =>
        simp only [agreeItems, carriesItems, Bool.and_eq_true] at hxy h ⊢
        exact ⟨carries_of_agrees w x y hxy.1 h.1, carriesItems_of_agrees rest xs ys hxy.2 h.2⟩
termination_by structural ws => ws

end

/-! ## §3. Without a mark nothing has changed -/

mutual

theorem overlay_fst_of_unmarked : (w v : Json) → (overlay v w).2 = false → (overlay v w).1 = v
  | .obj ws, v, h => by
    cases v with
    | obj ms =>
      rw [overlay] at h ⊢
      exact congrArg Json.obj (overlayMembers_fst_of_unmarked ws ms h)
    | null | bool _ | int _ | double _ | str _ | arr _ => exact swap_fst_of_unmarked h
  | .arr ws, v, h => by
    cases v with
    | arr xs =>
      rw [overlay] at h ⊢
      split at h
      · rename_i hent
        rw [if_pos hent]
        simp only [Bool.or_eq_false_iff, bne_eq_false_iff_eq] at h
        exact congrArg Json.arr
          (overlayItems_fst_of_unmarked ws xs (allNamed ws) 0 (by omega) h.2)
      · rename_i hent
        rw [if_neg hent]
        exact swap_fst_of_unmarked h
    | null | bool _ | int _ | double _ | str _ | obj _ => exact swap_fst_of_unmarked h
  | .null, v, h | .bool _, v, h | .int _, v, h | .double _, v, h | .str _, v, h =>
    swap_fst_of_unmarked h
termination_by structural w => w

theorem overlayMembers_fst_of_unmarked : (ws ms : List (String × Json)) →
    (overlayMembers ms ws).2 = false → (overlayMembers ms ws).1 = ms
  | [], ms, _ => rfl
  | (k, w) :: rest, ms, h => by
    rw [overlayMembers] at h ⊢
    cases hk : Table.get? ms k with
    | none => simp [hk] at h
    | some slot =>
      simp only [hk, Bool.or_eq_false_iff] at h ⊢
      have hslot := overlay_fst_of_unmarked w slot h.1
      rw [hslot, Table.insert_of_get? hk] at h ⊢
      exact overlayMembers_fst_of_unmarked rest ms h.2
termination_by structural ws => ws

/-- Unmarked entries are those at their own places, so that together they are the rest of the
    list. -/
theorem overlayItems_fst_of_unmarked : (ws xs : List Json) → (named : Bool) → (i : Nat) →
    i + ws.length = xs.length → (overlayItems xs named i ws).2 = false →
    (overlayItems xs named i ws).1 = xs.drop i
  | [], xs, named, i, hlen, _ => by
    rw [overlayItems]
    exact (List.drop_of_length_le (Nat.le_of_eq hlen.symm)).symm
  | w :: rest, xs, named, i, hlen, h => by
    rw [List.length_cons] at hlen
    rw [overlayItems] at h ⊢
    cases hp : partner? xs named i w with
    | none => simp [hp] at h
    | some p =>
      simp only [hp, Bool.or_eq_false_iff, bne_eq_false_iff_eq] at h ⊢
      obtain ⟨⟨rfl, hentry⟩, hrest⟩ := h
      have hlt : p < xs.length := by omega
      have hget : xs.getD p .null = xs[p] := (List.getElem_eq_getD Json.null).symm
      rw [overlay_fst_of_unmarked w _ hentry,
        overlayItems_fst_of_unmarked rest xs named (p + 1) (by omega) hrest, hget,
        List.drop_eq_getElem_cons hlt]
termination_by structural ws => ws

end

/-! ## §4. Unambiguous values -/

/-- The objects have each of their members once, and entries that are paired by name have names
    of their own, at every depth. -/
inductive Unambiguous : Json → Prop
  | null : Unambiguous .null
  | bool (b : Bool) : Unambiguous (.bool b)
  | int (n : Int) : Unambiguous (.int n)
  | double (x : Double) : Unambiguous (.double x)
  | str (s : String) : Unambiguous (.str s)
  | arr {xs : List Json} (names : allNamed xs = true → (xs.map nameOf?).Nodup)
      (each : ∀ x ∈ xs, Unambiguous x) : Unambiguous (.arr xs)
  | obj {ms : Table String Json} (once : (Table.keys ms).Nodup)
      (each : ∀ e ∈ ms, Unambiguous e.2) : Unambiguous (.obj ms)

theorem Unambiguous.carries_self (hw : Unambiguous w) : w.carries w = true := by
  induction hw with
  | null | bool _ | int _ | double _ | str _ =>
    rw [carries_scalar _ rfl (by simp)]
    exact agrees_refl _
  | @arr xs names each ih =>
    by_cases hent : isEntryList xs = true
    · refine (carries_entries_iff hent).mpr ⟨xs, rfl, rfl, ?_⟩
      intro i c w hc hw
      obtain rfl : c = w := Option.some.inj (hc.symm.trans hw)
      exact ih c (List.mem_of_getElem? hc)
    · rw [carries_arr_of_not_entries _ (by simpa using hent)]
      exact agrees_refl _
  | @obj ms once each ih =>
    refine carries_obj_iff.mpr ⟨ms, rfl, ?_⟩
    rintro ⟨k, w⟩ he
    exact ⟨w, Table.get?_of_mem once he, ih (k, w) he⟩

/-- The outcome of laying a value over any other one carries it. -/
theorem Unambiguous.overlay_carries (hw : Unambiguous w) :
    ∀ v : Json, (overlay v w).1.carries w = true := by
  induction hw with
  | null | bool _ | int _ | double _ | str _ =>
    intro v
    rw [overlay_scalar v rfl (by simp), carries_scalar _ rfl (by simp)]
    exact swap_agrees v _
  | @arr ws names each ih =>
    intro v
    by_cases hent : isEntryList ws = true
    · by_cases hv : ∃ xs, v = .arr xs
      · -- each entry is laid over its partner, or over an empty object
        obtain ⟨xs, rfl⟩ := hv
        rw [overlay_entries xs hent]
        refine (carries_entries_iff hent).mpr ⟨_, rfl, length_overlayItems _ _ _ _, ?_⟩
        intro i c w hc hwi
        rw [getElem?_overlayItems, hwi] at hc
        exact Option.some.inj hc ▸ ih w (List.mem_of_getElem? hwi) _
      · rw [overlay_arr_of_not_arr (fun xs h => hv ⟨xs, h⟩)]
        exact (Unambiguous.arr names each).carries_self
    · -- any other list takes the place of what was there
      have hother : isEntryList ws = false := by simpa using hent
      rw [overlay_arr_of_not_entries v hother, carries_arr_of_not_entries _ hother]
      exact swap_agrees v _
  | @obj ws once each ih =>
    intro v
    by_cases hv : v.isObject = true
    · obtain ⟨ms, rfl⟩ := exists_obj_of_isObject hv
      rw [overlay_obj]
      refine carries_obj_iff.mpr ⟨_, rfl, ?_⟩
      rintro ⟨k, w⟩ he
      refine ⟨laid (Table.get? ms k) w, ?_, ?_⟩
      · rw [get?_overlayMembers once, Table.get?_of_mem once he]
      · -- a missing member is written as it is, any other one is laid over
        cases Table.get? ms k with
        | none => exact (each (k, w) he).carries_self
        | some c => exact ih (k, w) he c
    · rw [overlay_obj_of_not_object (by simpa using hv)]
      exact (Unambiguous.obj once each).carries_self

/-! ## §5. Over what carries, nothing changes -/

theorem overlayMembers_unmarked
    (each : ∀ e ∈ ws, ∃ c, Table.get? ms e.1 = some c ∧ (overlay c e.2).2 = false) :
    (overlayMembers ms ws).2 = false := by
  induction ws with
  | nil => rfl
  | cons e rest ih =>
    obtain ⟨k, w⟩ := e
    obtain ⟨⟨c, hc, hmark⟩, hrest⟩ := List.forall_mem_cons.mp each
    rw [overlayMembers]
    simp only [hc, hmark, overlay_fst_of_unmarked w c hmark, Table.insert_of_get? hc,
      Bool.false_or]
    exact ih hrest

theorem overlayItems_unmarked {named : Bool} {i : Nat}
    (each : ∀ (j : Nat) w, ys[j]? = some w → ∃ c, xs[i + j]? = some c ∧
      partner? xs named (i + j) w = some (i + j) ∧ (overlay c w).2 = false) :
    (overlayItems xs named i ys).2 = false := by
  induction ys generalizing i with
  | nil => rfl
  | cons w rest ih =>
    obtain ⟨c, hc, hpart, hmark⟩ := each 0 w rfl
    rw [Nat.add_zero] at hc hpart
    have hget : xs.getD i .null = c := by
      rw [List.getD_eq_getElem?_getD, hc]
      rfl
    have hrest : (overlayItems xs named (i + 1) rest).2 = false := by
      refine ih ?_
      intro j d hd
      rw [show i + 1 + j = i + (j + 1) by omega]
      exact each (j + 1) d hd
    rw [overlayItems]
    simp only [hpart, hget, hmark, hrest, bne_self_eq_false, Bool.or_self]

/-- Over a value that carries the desired one already, no mark is set. -/
theorem Unambiguous.unmarked_of_carries (hw : Unambiguous w) :
    ∀ v : Json, v.carries w = true → (overlay v w).2 = false := by
  induction hw with
  | null | bool _ | int _ | double _ | str _ =>
    intro v h
    rw [carries_scalar v rfl (by simp)] at h
    rw [overlay_scalar v rfl (by simp), swap_snd, h]
    rfl
  | @arr ws names each ih =>
    intro v h
    by_cases hent : isEntryList ws = true
    · -- what carries a list has its length and its names, so each entry meets the one at its place
      obtain ⟨xs, rfl, length, lined⟩ := (carries_entries_iff hent).mp h
      have alike : allNamed ws = true → ∀ (i : Nat) c w, xs[i]? = some c → ws[i]? = some w →
          nameOf? c = nameOf? w := by
        intro hall i c w hc hwi
        have hsome := List.all_eq_true.mp hall w (List.mem_of_getElem? hwi)
        obtain ⟨n, hn⟩ := Option.isSome_iff_exists.mp hsome
        rw [hn]
        exact nameOf?_of_carries (lined i c w hc hwi) hn
      have hitems : (overlayItems xs (allNamed ws) 0 ws).2 = false := by
        refine overlayItems_unmarked ?_
        intro i w hwi
        have hi : i < xs.length := length ▸ (List.getElem?_eq_some_iff.mp hwi).1
        have hxi : xs[i]? = some xs[i] := List.getElem?_eq_getElem hi
        rw [Nat.zero_add]
        exact ⟨xs[i], hxi, partner?_of_named_alike length alike names hxi hwi,
          ih w (List.mem_of_getElem? hwi) _ (lined i _ w hxi hwi)⟩
      rw [overlay]
      simp only [if_pos hent, hitems, length, bne_self_eq_false, Bool.or_self]
    · have hother : isEntryList ws = false := by simpa using hent
      rw [carries_arr_of_not_entries v hother] at h
      rw [overlay_arr_of_not_entries v hother, swap_snd, h]
      rfl
  | @obj ws once each ih =>
    intro v h
    obtain ⟨ms, rfl, carried⟩ := carries_obj_iff.mp h
    rw [overlay]
    refine overlayMembers_unmarked ?_
    intro e he
    obtain ⟨c, hc, hcarries⟩ := carried e he
    exact ⟨c, hc, ih e he c hcarries⟩

/-- Over a value that carries the desired one already, nothing changes. -/
theorem Unambiguous.overlay_of_carries (hw : Unambiguous w) (h : v.carries w = true) :
    overlay v w = (v, false) := by
  have hmark := hw.unmarked_of_carries v h
  exact Prod.ext (overlay_fst_of_unmarked w v hmark) hmark

/-! ## §6. The mark -/

/-- The mark of laying an unambiguous value over any other is exact: it is set when the outcome is
    another value, even up to the signs of zeros; it is not when the current value carries the
    desired one; and laying the same value over the outcome changes nothing. -/
theorem overlay_marks_change (hw : Unambiguous w) (v : Json) :
    ((overlay v w).2 = true ↔ (overlay v w).1 ≠ v) ∧
      ((overlay v w).2 = true ↔ v.agrees (overlay v w).1 = false) ∧
      ((overlay v w).2 = false ↔ v.carries w = true) ∧
      overlay (overlay v w).1 w = ((overlay v w).1, false) := by
  have hcarries := hw.overlay_carries v
  -- what agrees with the outcome carries the desired value
  have hagrees : v.agrees (overlay v w).1 = true → (overlay v w).2 = false :=
    fun h => hw.unmarked_of_carries v (carries_of_agrees w v _ h hcarries)
  have hkept : (overlay v w).2 = false → (overlay v w).1 = v := overlay_fst_of_unmarked w v
  have hsame : (overlay v w).1 = v → v.agrees (overlay v w).1 = true :=
    fun h => h.symm ▸ agrees_refl v
  refine ⟨?changed, ?disagrees, ?carried, hw.overlay_of_carries hcarries⟩
  case changed =>
    rw [← Bool.not_eq_false]
    exact not_congr ⟨hkept, fun h => hagrees (hsame h)⟩
  case disagrees =>
    rw [← Bool.not_eq_false, ← Bool.not_eq_true (v.agrees _)]
    exact not_congr ⟨fun h => hsame (hkept h), hagrees⟩
  case carried =>
    refine ⟨?_, hw.unmarked_of_carries v⟩
    intro h
    rw [← hkept h]
    exact hcarries

/-- Two entries with names, one of which holds a zero. -/
def namedEntries : Json := .arr [
  .obj [("name", .str "a"), ("value", .double (.zero true))],
  .obj [("name", .str "b"), ("value", .str "new")]]

/-- Entries in another order, one of them with the other zero, and one that nobody asked for. -/
def staleEntries : Json := .arr [
  .obj [("extra", .bool true), ("name", .str "b"), ("value", .str "old")],
  .null,
  .obj [("name", .str "a"), ("value", .double (.zero false))]]

theorem overlay_marks_change_namedEntries : Unambiguous namedEntries ∧
    (overlay staleEntries namedEntries).2 = true ∧
    (overlay staleEntries namedEntries).1 ≠ staleEntries ∧
    (overlay (overlay staleEntries namedEntries).1 namedEntries).2 = false := by
  have hunambiguous : Unambiguous namedEntries := by
    refine .arr (fun _ => by decide) ?_
    simp only [List.forall_mem_cons]
    refine ⟨.obj (by decide) ?_, .obj (by decide) ?_, List.forall_mem_nil _⟩
    · simp only [List.forall_mem_cons]
      exact ⟨.str _, .double _, List.forall_mem_nil _⟩
    · simp only [List.forall_mem_cons]
      exact ⟨.str _, .str _, List.forall_mem_nil _⟩
  have hmark : (overlay staleEntries namedEntries).2 = true := by decide
  obtain ⟨changed, _, _, again⟩ := overlay_marks_change hunambiguous staleEntries
  exact ⟨hunambiguous, hmark, changed.mp hmark, congrArg Prod.snd again⟩

end Converge.Json
