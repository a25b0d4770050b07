/-
  Converge.Proofs.Amend.Replaced — members that end up exactly as desired.

  The parts whose members are replaced lie at the end of one path.  All else of the desired
  value is orderly, and what is replaced may be anything: laying it over a current value may
  give a value that does not settle, but that value is overwritten.

  Main statements:
    * `OrderlyBut.covers` — laying over and then replacing gives a value that covers the
      desired one.
    * `OrderlyBut.fixed` — over a value that covers the desired one and has the replaced
      members as desired, the two steps change nothing.
-/
import Converge.Amend
import Converge.Proofs.Json.Along
import Converge.Proofs.Table.Writes

namespace Converge

open Json (Step Covers Along Orderly)

namespace Amend

/-! ## §1. Several members at once -/

/-- Set or drop members as the desired part has them. -/
def replaceMembers (keys : List String) (cur want : Json) : Json :=
  keys.foldl (replaceMember want) cur

theorem replaceMembers_cons (k : String) (keys : List String) (cur want : Json) :
    replaceMembers (k :: keys) cur want = replaceMembers keys (replaceMember want cur k) want := rfl

theorem replaceMember_some {want : Json} {k : String} {y : Json} (hy : want.get? k = some y)
    (ms : Table String Json) : replaceMember want (.obj ms) k = .obj (Table.insert ms k y) := by
  unfold replaceMember
  rw [hy]
  rfl

theorem replaceMember_none {want : Json} {k : String} (hy : want.get? k = none)
    (ms : Table String Json) : replaceMember want (.obj ms) k = .obj (Table.erase ms k) := by
  unfold replaceMember
  rw [hy]
  rfl

theorem exists_replaceMember (want : Json) (k : String) (ms : Table String Json) :
    ∃ ns, replaceMember want (.obj ms) k = .obj ns ∧
      ∀ l, Table.get? ns l = if k = l then want.get? k else Table.get? ms l := by
  cases hy : want.get? k with
  | none =>
    refine ⟨Table.erase ms k, replaceMember_none hy ms, ?_⟩
    intro l
    exact Table.get?_erase ms k l
  | some y =>
    refine ⟨Table.insert ms k y, replaceMember_some hy ms, ?_⟩
    intro l
    exact Table.get?_insert ms k l y

/-- Afterwards an object has the replaced members as desired, and all others as before. -/
theorem exists_replaceMembers (keys : List String) (want : Json) (ms : Table String Json) :
    ∃ ns, replaceMembers keys (.obj ms) want = .obj ns ∧
      ∀ l, Table.get? ns l = if l ∈ keys then want.get? l else Table.get? ms l := by
  induction keys generalizing ms with
  | nil => exact ⟨ms, rfl, fun l => by simp⟩
  | cons k keys ih =>
    obtain ⟨ns, hns, hget⟩ := exists_replaceMember want k ms
    obtain ⟨os, hos, hget'⟩ := ih ns
    refine ⟨os, ?_, ?_⟩
    · rw [replaceMembers_cons, hns, hos]
    · intro l
      rw [hget' l, hget l]
      by_cases hl : l ∈ keys
      · simp [hl]
      · by_cases hk : k = l
        · subst hk
          simp
        · simp [hl, hk, Ne.symm hk]

theorem replaceMember_fixed {cur want : Json} {k : String} (h : cur.get? k = want.get? k) :
    replaceMember want cur k = cur := by
  unfold replaceMember
  cases hy : want.get? k with
  | none => exact Json.dropMember_of_get?_none (h.trans hy)
  | some y =>
    show (if cur.isObject = true then cur.setMember k y else cur) = cur
    rw [Json.setMember_of_get? (h.trans hy), ite_self]

theorem replaceMembers_fixed {keys : List String} {cur want : Json}
    (h : ∀ k ∈ keys, cur.get? k = want.get? k) : replaceMembers keys cur want = cur := by
  induction keys with
  | nil => rfl
  | cons k keys ih =>
    rw [replaceMembers_cons, replaceMember_fixed (h k (by simp))]
    exact ih fun l hl => h l (List.mem_cons_of_mem _ hl)

theorem replaceMembers_self (keys : List String) (v : Json) : replaceMembers keys v v = v :=
  replaceMembers_fixed fun _ _ => rfl

/-- A value without members gains none. -/
theorem replaceMembers_of_not_object {cur : Json} (hc : cur.isObject = false) (keys : List String)
    (want : Json) : replaceMembers keys cur want = cur := by
  induction keys with
  | nil => rfl
  | cons k keys ih =>
    have hstep : replaceMember want cur k = cur := by
      unfold replaceMember
      cases want.get? k with
      | none =>
        apply Json.dropMember_of_get?_none
        cases cur <;> simp_all [Json.isObject, Json.get?]
      | some y =>
        show (if cur.isObject = true then cur.setMember k y else cur) = cur
        rw [hc]
        rfl
    rw [replaceMembers_cons, hstep, ih]

/-- What a replaced member was before makes no difference. -/
theorem replaceMembers_insert {keys : List String} (want : Json) {ms : Table String Json}
    {k : String} (hk : k ∈ keys) (hms : Table.has ms k = true) (x : Json) :
    replaceMembers keys (.obj (Table.insert ms k x)) want = replaceMembers keys (.obj ms) want := by
  induction keys generalizing ms with
  | nil => cases hk
  | cons l keys ih =>
    rw [replaceMembers_cons, replaceMembers_cons]
    by_cases hlk : l = k
    · -- this step overwrites or drops the member
      subst hlk
      cases hy : want.get? l with
      | none => rw [replaceMember_none hy, replaceMember_none hy, Table.erase_insert]
      | some y => rw [replaceMember_some hy, replaceMember_some hy, Table.insert_insert]
    · -- this step passes the write to the member, which a later one overwrites
      have hkeys : k ∈ keys := (List.mem_cons.mp hk).resolve_left (Ne.symm hlk)
      cases hy : want.get? l with
      | none =>
        have hhas : Table.has (Table.erase ms l) k = true := by
          unfold Table.has at hms ⊢
          rw [Table.get?_erase, if_neg hlk]
          exact hms
        rw [replaceMember_none hy, replaceMember_none hy,
          Table.erase_insert_comm hms (Ne.symm hlk), ih hkeys hhas]
      | some y =>
        have hhas : Table.has (Table.insert ms l y) k = true := by
          rw [Table.has_insert, hms, Bool.or_true]
        rw [replaceMember_some hy, replaceMember_some hy,
          Table.insert_comm hms (Ne.symm hlk), ih hkeys hhas]

end Amend

/-! ## §2. Values with members that are replaced -/

namespace Json

/-- All of a value but the members `keys` of the parts at the end of a path is orderly. -/
inductive OrderlyBut (keys : List String) : List Step → Json → Prop
  | here {ms : Table String Json} (order : Table.Ascending ms)
      (each : ∀ e ∈ ms, e.1 ∉ keys → Orderly e.2) : OrderlyBut keys [] (.obj ms)
  | member {k : String} {path : List Step} {ms : Table String Json} (order : Table.Ascending ms)
      (inner : ∀ y, Table.get? ms k = some y → OrderlyBut keys path y)
      (each : ∀ e ∈ ms, e.1 ≠ k → Orderly e.2) : OrderlyBut keys (.member k :: path) (.obj ms)
  | entries {path : List Step} {xs : List Json} (entries : isEntryList xs = true)
      (names : allNamed xs = true → (xs.map nameOf?).Nodup)
      (each : ∀ x ∈ xs, OrderlyBut keys path x) : OrderlyBut keys (.entries :: path) (.arr xs)

/-- The parts at the end of the path are objects. -/
theorem OrderlyBut.isObject {keys : List String} {path : List Step} {w : Json}
    (h : OrderlyBut keys path w) {v c d : Json} (part : Along path v w c d) :
    d.isObject = true := by
  induction h generalizing v with
  | here => cases part; rfl
  | member _ _ _ ih =>
    cases part with
    | member _ hy rest => exact ih _ hy rest
  | entries _ _ _ ih =>
    cases part with
    | entry _ hy rest => exact ih _ (List.mem_of_getElem? hy) rest

/-- Laying an object over any value gives an object with the members laid over. -/
theorem exists_overlay_obj (v : Json) {ws : Table String Json} (order : Table.Ascending ws) :
    ∃ ms ns, (overlay v (.obj ws)).1 = .obj ns ∧
      ∀ k w, Table.get? ws k = some w → Table.get? ns k = some (laid (Table.get? ms k) w) := by
  by_cases hv : v.isObject = true
  · obtain ⟨ms, rfl⟩ := exists_obj_of_isObject hv
    refine ⟨ms, (overlayMembers ms ws).1, overlay_obj ms ws, ?_⟩
    intro k w hk
    rw [get?_overlayMembers order.nodup, hk]
  · exact ⟨[], ws, overlay_obj_of_not_object (by simpa using hv) ws, fun k w hk => hk⟩

theorem Orderly.laid_covers {w : Json} (hw : Orderly w) (slot : Option Json) :
    Covers (laid slot w) w := by
  cases slot with
  | none => exact .refl w
  | some c => exact overlay_covers hw c

/-! ## §3. Laying over and replacing covers -/

theorem OrderlyBut.covers {keys : List String} {path : List Step} {w : Json}
    (h : OrderlyBut keys path w) :
    ∀ v : Json, Covers (zipAlong (Amend.replaceMembers keys) path (overlay v w).1 w) w := by
  induction h with
  | @here ws order each =>
    intro v
    obtain ⟨ms, ns, hns, hget⟩ := exists_overlay_obj v order
    obtain ⟨os, hos, hget'⟩ := Amend.exists_replaceMembers keys (.obj ws) ns
    rw [hns, zipAlong_nil, hos, covers_obj_iff]
    refine ⟨os, rfl, ?_⟩
    intro k w hk
    by_cases hkeys : k ∈ keys
    · -- a replaced member is the desired one
      refine ⟨w, ?_, .refl w⟩
      rw [hget' k, if_pos hkeys]
      exact hk
    · refine ⟨laid (Table.get? ms k) w, ?_, ?_⟩
      · rw [hget' k, if_neg hkeys]
        exact hget k w hk
      · exact (each (k, w) (Table.mem_of_get? hk) hkeys).laid_covers _
  | @member k path ws order inner each ih =>
    intro v
    obtain ⟨ms, ns, hns, hget⟩ := exists_overlay_obj v order
    rw [hns]
    cases hy : Table.get? ws k with
    | none =>
      rw [zipAlong_member_right (w := .obj ws) hy, covers_obj_iff]
      refine ⟨ns, rfl, ?_⟩
      intro l w hl
      have hlk : l ≠ k := by
        intro hlk
        subst hlk
        rw [hy] at hl
        exact absurd hl nofun
      exact ⟨_, hget l w hl, (each (l, w) (Table.mem_of_get? hl) hlk).laid_covers _⟩
    | some y =>
      rw [zipAlong_member (v := .obj ns) (w := .obj ws) (hget k y hy) hy, covers_obj_iff]
      refine ⟨_, rfl, ?_⟩
      intro l w hl
      rw [Table.get?_insert]
      by_cases hkl : k = l
      · subst hkl
        have hyw : y = w := Option.some.inj (hy.symm.trans hl)
        subst hyw
        refine ⟨_, if_pos rfl, ?_⟩
        -- the walk goes on inside what was laid over, or inside the desired member itself
        cases Table.get? ms k with
        | none =>
          show Covers (zipAlong (Amend.replaceMembers keys) path y y) y
          rw [zipAlong_self (Amend.replaceMembers_self keys)]
          exact .refl y
        | some c => exact ih y hy c
      · rw [if_neg hkl]
        exact ⟨_, hget l w hl, (each (l, w) (Table.mem_of_get? hl) (Ne.symm hkl)).laid_covers _⟩
  | @entries path ws hent names each ih =>
    intro v
    by_cases hv : ∃ xs, v = .arr xs
    · obtain ⟨xs, rfl⟩ := hv
      rw [overlay_entries xs hent, zipAlong_entries]
      refine .entries hent ?_ ?_
      · rw [List.length_append, List.length_zipWith, List.length_drop, length_overlayItems]
        omega
      · intro i c w hc hw
        rw [getElem?_zipWith_append_drop hw, getElem?_overlayItems, hw] at hc
        injection hc with hc
        rw [← hc]
        exact ih w (List.mem_of_getElem? hw) _
    · -- the desired list takes the place of what was there, and needs no replacing
      rw [overlay_arr_of_not_arr (fun xs h => hv ⟨xs, h⟩),
        zipAlong_self (Amend.replaceMembers_self keys)]
      exact .refl _

/-- Afterwards the replaced members are as desired. -/
theorem OrderlyBut.replaced {keys : List String} {path : List Step} {w : Json}
    (h : OrderlyBut keys path w) (v : Json) {c d : Json}
    (part : Along path (zipAlong (Amend.replaceMembers keys) path (overlay v w).1 w) w c d) :
    ∀ k ∈ keys, c.get? k = d.get? k := by
  intro k hk
  have hobj : c.isObject = true := (part.covers (h.covers v)).isObject (h.isObject part)
  obtain ⟨b, _, hc⟩ := along_zipAlong part
  -- replacing makes an object of objects only
  have hb : b.isObject = true := by
    apply Decidable.byContradiction
    intro hb
    rw [hc, Amend.replaceMembers_of_not_object (by simpa using hb)] at hobj
    exact hb hobj
  obtain ⟨ms, rfl⟩ := exists_obj_of_isObject hb
  obtain ⟨ns, hns, hget⟩ := Amend.exists_replaceMembers keys d ms
  rw [hc, hns]
  show Table.get? ns k = d.get? k
  rw [hget k, if_pos hk]

/-! ## §4. Nothing changes what is in line -/

/-- Laying members over does nothing that a later step `g` can see, when every member is
    covered already or its old value is lost in `g`. -/
theorem overlayMembers_absorbed {α : Type} {g : Table String Json → α} {L : String → Prop}
    (absorbs : ∀ k, L k → ∀ ms x, Table.has ms k = true → g (Table.insert ms k x) = g ms)
    {ws : Table String Json} {ms : Table String Json}
    (each : ∀ e ∈ ws, (L e.1 ∧ Table.has ms e.1 = true) ∨
      (¬L e.1 ∧ ∃ c, Table.get? ms e.1 = some c ∧ (overlay c e.2).1 = c)) :
    g (overlayMembers ms ws).1 = g ms := by
  induction ws generalizing ms with
  | nil => rfl
  | cons e rest ih =>
    obtain ⟨a, w⟩ := e
    rcases each (a, w) (by simp) with ⟨hlost, hhas⟩ | ⟨_, c, hc, hfix⟩
    · -- the member is written, and `g` does not see it
      obtain ⟨c, hc⟩ := Table.has_iff.mp hhas
      have hstep : (overlayMembers ms ((a, w) :: rest)).1
          = (overlayMembers (Table.insert ms a (overlay c w).1) rest).1 := by
        rw [overlayMembers, hc]
      rw [hstep, ih, absorbs a hlost ms _ hhas]
      intro f hf
      rcases each f (List.mem_cons_of_mem _ hf) with ⟨hl, hh⟩ | ⟨hl, d, hd, hfix⟩
      · exact .inl ⟨hl, by rw [Table.has_insert, hh, Bool.or_true]⟩
      · refine .inr ⟨hl, d, ?_, hfix⟩
        have hne : a ≠ f.1 := by
          intro heq
          exact hl (heq ▸ hlost)
        rw [Table.get?_insert, if_neg hne]
        exact hd
    · -- the member is covered, so that writing it changes nothing
      have hstep : (overlayMembers ms ((a, w) :: rest)).1 = (overlayMembers ms rest).1 := by
        rw [overlayMembers, hc]
        simp only [hfix, Table.insert_of_get? hc]
      rw [hstep]
      exact ih fun f hf => each f (List.mem_cons_of_mem _ hf)

theorem OrderlyBut.fixed {keys : List String} {path : List Step} {w : Json}
    (h : OrderlyBut keys path w) :
    ∀ v : Json, Covers v w → (∀ c d, Along path v w c d → ∀ k ∈ keys, c.get? k = d.get? k) →
      zipAlong (Amend.replaceMembers keys) path (overlay v w).1 w = v := by
  induction h with
  | @here ws order each =>
    intro v hcov same
    obtain ⟨ms, rfl, cov⟩ := covers_obj_iff.mp hcov
    -- what laying over does to a replaced member is lost when the member is replaced
    have habs : Amend.replaceMembers keys (.obj (overlayMembers ms ws).1) (.obj ws)
        = Amend.replaceMembers keys (.obj ms) (.obj ws) := by
      refine overlayMembers_absorbed
        (g := fun ms => Amend.replaceMembers keys (.obj ms) (.obj ws)) (L := fun k => k ∈ keys)
        (fun k hk ms x hms => Amend.replaceMembers_insert (.obj ws) hk hms x) ?_
      intro e he
      obtain ⟨c, hc, hce⟩ := cov e.1 e.2 (Table.get?_of_mem order.nodup he)
      by_cases hk : e.1 ∈ keys
      · exact .inl ⟨hk, Table.has_iff.mpr ⟨c, hc⟩⟩
      · exact .inr ⟨hk, c, hc, overlay_of_covers (each e he hk) c hce⟩
    rw [overlay_obj, zipAlong_nil, habs]
    exact Amend.replaceMembers_fixed (same _ _ (.here _ _))
  | @member k path ws order inner each ih =>
    intro v hcov same
    obtain ⟨ms, rfl, cov⟩ := covers_obj_iff.mp hcov
    rw [overlay_obj]
    cases hy : Table.get? ws k with
    | none =>
      -- the path leads nowhere, and all members are covered
      rw [zipAlong_member_right (w := .obj ws) hy, overlayMembers_of_fixed]
      intro e he
      have hek : e.1 ≠ k := by
        intro hek
        have he' := Table.get?_of_mem order.nodup he
        rw [hek, hy] at he'
        exact absurd he' nofun
      obtain ⟨c, hc, hce⟩ := cov e.1 e.2 (Table.get?_of_mem order.nodup he)
      exact ⟨c, hc, overlay_of_covers (each e he hek) c hce⟩
    | some y =>
      obtain ⟨x, hx, hxy⟩ := cov k y hy
      have hlaid : Json.get? (.obj (overlayMembers ms ws).1) k = some (overlay x y).1 := by
        show Table.get? (overlayMembers ms ws).1 k = _
        rw [get?_overlayMembers order.nodup, hy, hx]
        rfl
      have hin : zipAlong (Amend.replaceMembers keys) path (overlay x y).1 y = x :=
        ih y hy x hxy fun c d part => same c d (.member hx hy part)
      -- what laying over does to the member on the path is lost in the write that ends the walk
      have habs : Table.insert (overlayMembers ms ws).1 k x = Table.insert ms k x := by
        refine overlayMembers_absorbed (g := fun ms => Table.insert ms k x) (L := fun l => l = k)
          ?_ ?_
        · rintro l rfl ns z hns
          exact Table.insert_insert _ _ z x
        · intro e he
          obtain ⟨c, hc, hce⟩ := cov e.1 e.2 (Table.get?_of_mem order.nodup he)
          by_cases hek : e.1 = k
          · exact .inl ⟨hek, Table.has_iff.mpr ⟨c, hc⟩⟩
          · exact .inr ⟨hek, c, hc, overlay_of_covers (each e he hek) c hce⟩
      rw [zipAlong_member (w := .obj ws) hlaid hy, hin]
      show Json.obj (Table.insert (overlayMembers ms ws).1 k x) = .obj ms
      rw [habs, Table.insert_of_get? hx]
  | @entries path ws hent names each ih =>
    intro v hcov same
    obtain ⟨xs, rfl, length, lined⟩ := (covers_entries_iff hent).mp hcov
    rw [overlay_entries xs hent, zipAlong_entries]
    congr 1
    apply List.ext_getElem?
    intro i
    cases hw : ws[i]? with
    | none =>
      have hle : ws.length ≤ i := List.getElem?_eq_none_iff.mp hw
      rw [getElem?_zipWith_append_drop_of_none hw, getElem?_overlayItems, hw,
        List.getElem?_eq_none (by omega)]
      rfl
    | some w =>
      have hi : i < xs.length := length ▸ (List.getElem?_eq_some_iff.mp hw).1
      have hx : xs[i]? = some xs[i] := List.getElem?_eq_getElem hi
      rw [getElem?_zipWith_append_drop hw, getElem?_overlayItems, hw, hx, Option.map_some,
        Nat.zero_add, beneath_of_lined_up length lined names hx hw]
      exact congrArg some (ih w (List.mem_of_getElem? hw) _ (lined i _ w hx hw)
        fun c d part => same c d (.entry hx hw part))

end Json

end Converge
