/-
  Converge.Proofs.Json.Fits — when laying a value over another leaves nothing of the other.

  Laying over keeps what the desired value does not mention.  Nothing is left over when the
  current value has no members of its own, other than those that are replaced anyway.

  Main statements:
    * `fitsBut_here`, `fitsBut_member`, `fitsBut_entries` — fitting, constructor by constructor
      along the path of the replaced members.
    * `fits_empty` — every orderly value fits over the empty object.
    * `overlay_erase` — a desired member that is there already may be left out.
-/
import Converge.Proofs.Amend.Replaced
import Converge.Proofs.Json.Records

namespace Converge.Json

/-! ## §1. Fitting -/

/-- Laying `w` over `v` and replacing the members `keys` at the end of the path gives `w`. -/
def FitsBut (keys : List String) (path : List Step) (v w : Json) : Prop :=
  zipAlong (Amend.replaceMembers keys) path (overlay v w).1 w = w

/-- Laying `w` over `v` gives `w`. -/
def Fits (v w : Json) : Prop := (overlay v w).1 = w

theorem fits_iff_fitsBut {v w : Json} : Fits v w ↔ FitsBut [] [] v w := by
  unfold Fits FitsBut
  rw [zipAlong_nil]
  rfl

/-- Where everything fits, replacing changes nothing. -/
theorem Fits.fitsBut {v w : Json} (h : Fits v w) (keys : List String) (path : List Step) :
    FitsBut keys path v w := by
  unfold FitsBut
  rw [h, zipAlong_self (Amend.replaceMembers_self keys)]

theorem Orderly.fits_self {w : Json} (hw : Orderly w) : Fits w w :=
  overlay_of_covers hw w (.refl w)

theorem fits_str (v : Json) (s : String) : Fits v (.str s) := by
  unfold Fits
  rw [overlay_scalar v rfl (by simp), (Orderly.str s).swap_fst]

theorem fits_int (v : Json) (n : Int) : Fits v (.int n) := by
  unfold Fits
  rw [overlay_scalar v rfl (by simp), (Orderly.int n).swap_fst]

/-- A list of texts takes the place of any value. -/
theorem fits_ofStrings (v : Json) (xs : List String) : Fits v (ofStrings xs) := by
  have hother : isEntryList (xs.map Json.str) = false := by
    cases xs with
    | nil => rfl
    | cons x rest => rfl
  unfold Fits
  show (overlay v (.arr (xs.map Json.str))).1 = _
  rw [overlay_arr_of_not_entries v hother]
  exact (orderly_ofStrings xs).swap_fst v

/-! ## §2. Objects -/

theorem ascending_overlayMembers {ms : Table String Json} (h : Table.Ascending ms)
    (ws : Table String Json) : Table.Ascending (overlayMembers ms ws).1 := by
  induction ws generalizing ms with
  | nil => rw [overlayMembers]; exact h
  | cons e rest ih =>
    obtain ⟨a, w⟩ := e
    rw [overlayMembers]
    cases Table.get? ms a with
    | some c => exact ih (h.insert a _)
    | none => exact ih (h.insert a _)

theorem ascending_replaceMembers {ms ns : Table String Json} (h : Table.Ascending ms)
    {keys : List String} {want : Json}
    (hns : Amend.replaceMembers keys (.obj ms) want = .obj ns) : Table.Ascending ns := by
  induction keys generalizing ms with
  | nil =>
    injection hns with hns
    exact hns ▸ h
  | cons k keys ih =>
    rw [Amend.replaceMembers_cons] at hns
    cases hy : want.get? k with
    | none =>
      rw [Amend.replaceMember_none hy] at hns
      exact ih (h.erase k) hns
    | some y =>
      rw [Amend.replaceMember_some hy] at hns
      exact ih (h.insert k y) hns

/-- Where the current member, if there is one, is desired and fits, the desired member results. -/
theorem get?_overlayMembers_of_fits {ms ws : Table String Json} (once : (Table.keys ws).Nodup)
    {k : String}
    (fits : ∀ x, Table.get? ms k = some x → ∃ y, Table.get? ws k = some y ∧ Fits x y) :
    Table.get? (overlayMembers ms ws).1 k = Table.get? ws k := by
  rw [get?_overlayMembers once]
  cases hx : Table.get? ms k with
  | none => cases Table.get? ws k <;> rfl
  | some x =>
    obtain ⟨y, hy, hfit⟩ := fits x hx
    rw [hy]
    exact congrArg some hfit

/-- An object fits when every current member is replaced, or desired and fitting. -/
theorem fitsBut_here {keys : List String} {ms ws : Table String Json}
    (hms : Table.Ascending ms) (hws : Table.Ascending ws)
    (each : ∀ e ∈ ms, e.1 ∉ keys → ∃ y, Table.get? ws e.1 = some y ∧ Fits e.2 y) :
    FitsBut keys [] (.obj ms) (.obj ws) := by
  unfold FitsBut
  obtain ⟨ns, hns, hget⟩ := Amend.exists_replaceMembers keys (.obj ws) (overlayMembers ms ws).1
  rw [overlay_obj, zipAlong_nil, hns]
  congr 1
  refine Table.Ascending.ext
    (ascending_replaceMembers (ascending_overlayMembers hms ws) hns) hws ?_
  intro k
  rw [hget k]
  by_cases hk : k ∈ keys
  · rw [if_pos hk]
    rfl
  · rw [if_neg hk]
    exact get?_overlayMembers_of_fits hws.nodup fun x hx =>
      each (k, x) (Table.mem_of_get? hx) hk

theorem fits_obj {ms ws : Table String Json} (hms : Table.Ascending ms)
    (hws : Table.Ascending ws)
    (each : ∀ e ∈ ms, ∃ y, Table.get? ws e.1 = some y ∧ Fits e.2 y) :
    Fits (.obj ms) (.obj ws) :=
  fits_iff_fitsBut.mpr (fitsBut_here hms hws fun e he _ => each e he)

/-- Every orderly object fits over the empty one. -/
theorem fits_empty {ws : Table String Json} (hws : Table.Ascending ws) :
    Fits (.obj []) (.obj ws) :=
  fits_obj Table.ascending_nil hws nofun

/-- The same along a path that starts with a member. -/
theorem fitsBut_member {keys : List String} {k : String} {path : List Step}
    {ms ws : Table String Json} (hms : Table.Ascending ms) (hws : Table.Ascending ws)
    (inner : ∀ x y, Table.get? ms k = some x → Table.get? ws k = some y → FitsBut keys path x y)
    (each : ∀ e ∈ ms, ∃ y, Table.get? ws e.1 = some y ∧ (e.1 ≠ k → Fits e.2 y)) :
    FitsBut keys (.member k :: path) (.obj ms) (.obj ws) := by
  unfold FitsBut
  rw [overlay_obj]
  have hrest : ∀ l, l ≠ k →
      Table.get? (overlayMembers ms ws).1 l = Table.get? ws l := by
    intro l hlk
    refine get?_overlayMembers_of_fits hws.nodup ?_
    intro x hx
    obtain ⟨y, hy, hfit⟩ := each (l, x) (Table.mem_of_get? hx)
    exact ⟨y, hy, hfit hlk⟩
  cases hy : Table.get? ws k with
  | none =>
    -- the path ends here, and there is no such current member either
    rw [zipAlong_member_right (w := .obj ws) hy]
    congr 1
    refine Table.Ascending.ext (ascending_overlayMembers hms ws) hws ?_
    intro l
    by_cases hlk : l = k
    · subst hlk
      refine get?_overlayMembers_of_fits hws.nodup ?_
      intro x hx
      obtain ⟨y, hy', _⟩ := each (l, x) (Table.mem_of_get? hx)
      rw [hy] at hy'
      exact absurd hy' nofun
    · exact hrest l hlk
  | some y =>
    -- the member on the path is put right by the walk, all others fit
    have hx : Json.get? (.obj (overlayMembers ms ws).1) k = some (laid (Table.get? ms k) y) := by
      show Table.get? (overlayMembers ms ws).1 k = _
      rw [get?_overlayMembers hws.nodup, hy]
    have hin : zipAlong (Amend.replaceMembers keys) path (laid (Table.get? ms k) y) y = y := by
      cases hmk : Table.get? ms k with
      | none => exact zipAlong_self (Amend.replaceMembers_self keys) path y
      | some x => exact inner x y hmk hy
    rw [zipAlong_member (w := .obj ws) hx hy, hin]
    show Json.obj (Table.insert (overlayMembers ms ws).1 k y) = .obj ws
    congr 1
    refine Table.Ascending.ext ((ascending_overlayMembers hms ws).insert k y) hws ?_
    intro l
    rw [Table.get?_insert]
    by_cases hkl : k = l
    · subst hkl
      rw [if_pos rfl, hy]
    · rw [if_neg hkl]
      exact hrest l (Ne.symm hkl)

/-- A desired member that is there already may be left out of what is laid over. -/
theorem overlay_erase {ms ws : Table String Json} (hms : Table.Ascending ms)
    (hws : Table.Ascending ws) {k : String} {x : Json} (hx : Table.get? ms k = some x)
    (hy : Table.get? ws k = some x) (fits : Fits x x) :
    (overlay (.obj ms) (.obj (Table.erase ws k))).1 = (overlay (.obj ms) (.obj ws)).1 := by
  rw [overlay_obj, overlay_obj]
  congr 1
  refine Table.Ascending.ext (ascending_overlayMembers hms _) (ascending_overlayMembers hms _) ?_
  intro l
  rw [get?_overlayMembers (hws.erase k).nodup, get?_overlayMembers hws.nodup, Table.get?_erase]
  by_cases hkl : k = l
  · subst hkl
    rw [if_pos rfl, hx, hy]
    exact congrArg some fits.symm
  · rw [if_neg hkl]

/-! ## §3. Lists -/

/-- A list fits when each of its entries fits over the one it is laid over. -/
theorem fitsBut_entries {keys : List String} {path : List Step} {xs ws : List Json}
    (entries : isEntryList ws = true)
    (each : ∀ (i : Nat) w, ws[i]? = some w → FitsBut keys path (beneath xs (allNamed ws) i w) w) :
    FitsBut keys (.entries :: path) (.arr xs) (.arr ws) := by
  unfold FitsBut
  rw [overlay_entries xs entries, zipAlong_entries]
  congr 1
  apply List.ext_getElem?
  intro i
  cases hw : ws[i]? with
  | none =>
    rw [getElem?_zipWith_append_drop_of_none hw, getElem?_overlayItems, hw]
    rfl
  | some w =>
    rw [getElem?_zipWith_append_drop hw, getElem?_overlayItems, hw, Nat.zero_add]
    exact congrArg some (each i w hw)

theorem fits_entries {xs ws : List Json} (entries : isEntryList ws = true)
    (each : ∀ (i : Nat) w, ws[i]? = some w → Fits (beneath xs (allNamed ws) i w) w) :
    Fits (.arr xs) (.arr ws) := by
  unfold Fits
  rw [overlay_entries xs entries]
  congr 1
  apply List.ext_getElem?
  intro i
  rw [getElem?_overlayItems]
  cases hw : ws[i]? with
  | none => rfl
  | some w =>
    rw [Nat.zero_add]
    exact congrArg some (each i w hw)

/-- What an entry is laid over is one of the current entries, or empty. -/
theorem beneath_mem (xs : List Json) (named : Bool) (i : Nat) (w : Json) :
    beneath xs named i w ∈ xs ∨ beneath xs named i w = .obj [] := by
  unfold beneath
  cases hp : partner? xs named i w with
  | none => exact .inr rfl
  | some p =>
    have hlt : p < xs.length := by
      unfold partner? at hp
      cases named with
      | true =>
        simp only [if_true] at hp
        exact (List.findIdx?_eq_some_iff_getElem.mp hp).1
      | false =>
        simp only [Bool.false_eq_true, if_false] at hp
        split at hp
        · rename_i hi
          injection hp with hp
          exact hp ▸ hi
        · exact absurd hp nofun
    refine .inl ?_
    show xs.getD p .null ∈ xs
    rw [List.getD_eq_getElem?_getD, List.getElem?_eq_getElem hlt]
    exact List.getElem_mem hlt

/-- Lists of entries with the same names in the same order fit entry by entry. -/
theorem fitsBut_aligned {keys : List String} {path : List Step} {xs ws : List Json}
    (entries : isEntryList ws = true) (alike : xs.map nameOf? = ws.map nameOf?)
    (names : allNamed ws = true → (ws.map nameOf?).Nodup)
    (each : ∀ (i : Nat) x w, xs[i]? = some x → ws[i]? = some w → FitsBut keys path x w) :
    FitsBut keys (.entries :: path) (.arr xs) (.arr ws) := by
  have hlen : xs.length = ws.length := by
    have h := congrArg List.length alike
    simpa using h
  refine fitsBut_entries entries ?_
  intro i w hw
  have hi : i < xs.length := hlen ▸ (List.getElem?_eq_some_iff.mp hw).1
  have hx : xs[i]? = some xs[i] := List.getElem?_eq_getElem hi
  have hbeneath : beneath xs (allNamed ws) i w = xs[i] := by
    refine beneath_of_named_alike hlen ?_ names hx hw
    intro _ j c y hc hy
    have hcy := congrArg (fun l => l[j]?) alike
    simpa [List.getElem?_map, hc, hy] using hcy
  rw [hbeneath]
  exact each i xs[i] w hx hw

/-- A list that is not laid over entry by entry takes the place of any value. -/
theorem Orderly.fits_of_not_entries {ws : List Json} (h : Orderly (.arr ws))
    (other : isEntryList ws = false) (v : Json) : Fits v (.arr ws) := by
  unfold Fits
  rw [overlay_arr_of_not_entries v other]
  exact h.swap_fst v

theorem fits_nil (v : Json) : Fits v (.arr []) := by
  have h : Orderly (.arr []) := .arr (fun _ => List.Pairwise.nil) (by simp)
  exact h.fits_of_not_entries rfl v

/-- Records with the same distinct names fit one by one. -/
theorem fits_named {α : Type} {f : α → Json} {name : α → String}
    (named : ∀ x, nameOf? (f x) = some (name x)) (objects : ∀ x, (f x).isObject = true)
    {xs ws : List α} (same : xs.map name = ws.map name) (once : (ws.map name).Nodup)
    (each : ∀ (i : Nat) x w, xs[i]? = some x → ws[i]? = some w → Fits (f x) (f w)) :
    Fits (.arr (xs.map f)) (.arr (ws.map f)) := by
  by_cases hws : ws = []
  · subst hws
    exact fits_nil _
  · have h : FitsBut [] [.entries] (.arr (xs.map f)) (.arr (ws.map f)) := by
      refine fitsBut_aligned (isEntryList_map objects hws) ?_ (fun _ => nodup_names named once) ?_
      · rw [map_nameOf? named, map_nameOf? named, same]
      · intro i x w hx hw
        rw [List.getElem?_map] at hx hw
        obtain ⟨a, ha, rfl⟩ := Option.map_eq_some_iff.mp hx
        obtain ⟨b, hb, rfl⟩ := Option.map_eq_some_iff.mp hw
        exact fits_iff_fitsBut.mp (each i a b ha hb)
    unfold FitsBut at h
    rwa [zipAlong_fixed (f := Amend.replaceMembers []) fun _ _ _ => rfl] at h

/-- Records that fit over every current one and over the empty object fit as a list. -/
theorem fits_each {α : Type} {f : α → Json} (objects : ∀ x, (f x).isObject = true)
    {xs ws : List α}
    (each : ∀ w ∈ ws, Fits (.obj []) (f w) ∧ ∀ x ∈ xs, Fits (f x) (f w)) :
    Fits (.arr (xs.map f)) (.arr (ws.map f)) := by
  by_cases hws : ws = []
  · subst hws
    exact fits_nil _
  · refine fits_entries (isEntryList_map objects hws) ?_
    intro i v hv
    rw [List.getElem?_map] at hv
    obtain ⟨w, hw, rfl⟩ := Option.map_eq_some_iff.mp hv
    obtain ⟨hempty, hover⟩ := each w (List.mem_of_getElem? hw)
    rcases beneath_mem (xs.map f) (allNamed (ws.map f)) i (f w) with hmem | hnil
    · obtain ⟨x, hx, heq⟩ := List.mem_map.mp hmem
      rw [← heq]
      exact hover x hx
    · rw [hnil]
      exact hempty

end Converge.Json
