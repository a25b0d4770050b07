/-
  Converge.Proofs.Json.Along — what a walk along a path reaches and changes.

  A path leads to a part of a value and to its counterpart in another value: member by
  member, and through every entry of two lists at once.

  Main statements:
    * `zipAlong_fixed` — a walk whose steps change no part changes nothing.
    * `along_zipAlong` — after a walk its path reaches the changed parts.
    * `Trims.along_zipAlong` — a walk that only takes away members the desired part lacks
      leaves the parts on any other path alone, or trims them further in.
-/
import Converge.Proofs.Json.Covers
import Converge.Proofs.Table.Writes

namespace Converge.Json

/-! ## §1. Members after a change -/

@[simp] theorem get?_setMember (v : Json) (k l : String) (x : Json) :
    (v.setMember k x).get? l = if k = l then some x else v.get? l := by
  cases v with
  | obj ms => exact Table.get?_insert ms k l x
  | null | bool _ | int _ | double _ | str _ | arr _ =>
    show Table.get? [(k, x)] l = _
    rw [Table.get?_cons]
    rfl

@[simp] theorem get?_dropMember (v : Json) (k l : String) :
    (v.dropMember k).get? l = if k = l then none else v.get? l := by
  cases v with
  | obj ms => exact Table.get?_erase ms k l
  | null | bool _ | int _ | double _ | str _ | arr _ =>
    show none = if k = l then none else none
    simp

theorem setMember_of_get? {v : Json} {k : String} {x : Json} (h : v.get? k = some x) :
    v.setMember k x = v := by
  cases v with
  | obj ms => exact congrArg Json.obj (Table.insert_of_get? h)
  | null | bool _ | int _ | double _ | str _ | arr _ => simp [get?] at h

theorem dropMember_of_get?_none {v : Json} {k : String} (h : v.get? k = none) :
    v.dropMember k = v := by
  cases v with
  | obj ms => exact congrArg Json.obj (Table.erase_of_get?_none h)
  | null | bool _ | int _ | double _ | str _ | arr _ => rfl

theorem mapMember_of_get? {f : Json → Json} {ms : Table String Json} {k : String} {v : Json}
    (here : Table.get? ms k = some v) :
    mapMember f (.obj ms) k = .obj (Table.insert ms k (f v)) := by
  simp only [mapMember, here]

theorem mapMember_of_get?_none {f : Json → Json} {ms : Table String Json} {k : String}
    (gone : Table.get? ms k = none) : mapMember f (.obj ms) k = .obj ms := by
  simp only [mapMember, gone]

theorem setMember_setMember (v : Json) (k : String) (x y : Json) :
    (v.setMember k x).setMember k y = v.setMember k y := by
  cases v with
  | obj ms => exact congrArg Json.obj (Table.insert_insert ms k x y)
  | null | bool _ | int _ | double _ | str _ | arr _ =>
    simp [setMember, Table.get?, Table.insert, Table.has, Table.replace]

theorem dropMember_setMember {v : Json} (object : v.isObject = true) (k : String) (x : Json) :
    (v.setMember k x).dropMember k = v.dropMember k := by
  cases v with
  | obj ms => exact congrArg Json.obj (Table.erase_insert ms k x)
  | null | bool _ | int _ | double _ | str _ | arr _ => exact absurd object nofun

/-- A member that was just written is replaced by what it is mapped to. -/
theorem mapMember_setMember (f : Json → Json) (v : Json) (k : String) (x : Json) :
    (v.setMember k x).mapMember f k = v.setMember k (f x) := by
  cases v with
  | obj ms =>
    have hthere : Table.get? (Table.insert ms k x) k = some x := by
      rw [Table.get?_insert, if_pos rfl]
    show mapMember f (.obj (Table.insert ms k x)) k = .obj (Table.insert ms k (f x))
    rw [mapMember_of_get? hthere, Table.insert_insert]
  | null | bool _ | int _ | double _ | str _ | arr _ =>
    simp [setMember, mapMember, Table.get?, Table.insert, Table.has, Table.replace]

theorem exists_obj_of_get? {v : Json} {k : String} {x : Json} (h : v.get? k = some x) :
    ∃ ms, v = .obj ms := by
  cases v with
  | obj ms => exact ⟨ms, rfl⟩
  | null | bool _ | int _ | double _ | str _ | arr _ => simp [get?] at h

theorem isObject_dropMember (v : Json) (k : String) : (v.dropMember k).isObject = v.isObject := by
  cases v <;> rfl

theorem dropMember_eq_arr {v : Json} {k : String} {xs : List Json} (h : v.dropMember k = .arr xs) :
    v = .arr xs := by
  cases v <;> simp_all [dropMember]

/-! ## §2. What a path reaches -/

/-- `Along path v w c d`: the path leads to the part `c` of `v`, and to its counterpart
    `d` in `w`. -/
inductive Along : List Step → Json → Json → Json → Json → Prop
  | here (c d : Json) : Along [] c d c d
  | member {k : String} {path : List Step} {v w x y c d : Json} (hx : v.get? k = some x)
      (hy : w.get? k = some y) (rest : Along path x y c d) : Along (.member k :: path) v w c d
  | entry {i : Nat} {path : List Step} {xs ws : List Json} {x y c d : Json}
      (hx : xs[i]? = some x) (hy : ws[i]? = some y) (rest : Along path x y c d) :
      Along (.entries :: path) (.arr xs) (.arr ws) c d

/-- Within one value every part is its own counterpart. -/
theorem Along.eq_of_self {path : List Step} {v c d : Json} (h : Along path v v c d) : c = d := by
  induction path generalizing v with
  | nil => cases h; rfl
  | cons step path ih =>
    cases h with
    | member hx hy rest =>
      rw [hx] at hy
      injection hy with hy
      subst hy
      exact ih rest
    | entry hx hy rest =>
      rw [hx] at hy
      injection hy with hy
      subst hy
      exact ih rest

/-- Parts of a covering value cover their counterparts. -/
theorem Along.covers {path : List Step} {v w c d : Json} (h : Along path v w c d)
    (hv : Covers v w) : Covers c d := by
  induction h with
  | here => exact hv
  | member hx hy _ ih =>
    obtain ⟨x, hx', hcov⟩ := hv.get? hy
    rw [hx] at hx'
    injection hx' with hx'
    exact ih (hx' ▸ hcov)
  | @entry i _ xs ws x y _ _ hx hy _ ih =>
    apply ih
    -- lists that are not covered entry by entry are equal, and so are their entries
    by_cases hent : isEntryList ws = true
    · obtain ⟨zs, hzs, _, each⟩ := (covers_entries_iff hent).mp hv
      injection hzs with hzs
      subst hzs
      exact each i x y hx hy
    · have heq := hv.eq_of_not_entries (by simpa using hent)
      injection heq with heq
      subst heq
      rw [hx] at hy
      injection hy with hy
      exact hy ▸ .refl x

/-! ## §3. Walking -/

variable {f : Json → Json → Json}

theorem zipAlong_nil (v w : Json) : zipAlong f [] v w = f v w := by
  rw [zipAlong]

theorem zipAlong_member {k : String} {path : List Step} {v w x y : Json} (hx : v.get? k = some x)
    (hy : w.get? k = some y) :
    zipAlong f (.member k :: path) v w = v.setMember k (zipAlong f path x y) := by
  rw [zipAlong]
  simp [hx, hy]

theorem zipAlong_member_left {k : String} {path : List Step} {v w : Json} (hx : v.get? k = none) :
    zipAlong f (.member k :: path) v w = v := by
  rw [zipAlong]
  simp [hx]

theorem zipAlong_member_right {k : String} {path : List Step} {v w : Json} (hy : w.get? k = none) :
    zipAlong f (.member k :: path) v w = v := by
  rw [zipAlong]
  cases v.get? k <;> simp [hy]

theorem zipAlong_entries (path : List Step) (xs ws : List Json) :
    zipAlong f (.entries :: path) (.arr xs) (.arr ws)
      = .arr (List.zipWith (zipAlong f path) xs ws ++ xs.drop ws.length) := by
  rw [zipAlong]

theorem zipAlong_entries_left {path : List Step} {v w : Json} (hv : ∀ xs, v ≠ .arr xs) :
    zipAlong f (.entries :: path) v w = v := by
  cases v with
  | arr xs => exact absurd rfl (hv xs)
  | null | bool _ | int _ | double _ | str _ | obj _ => rw [zipAlong]; simp

theorem zipAlong_entries_right {path : List Step} {v w : Json} (hw : ∀ ws, w ≠ .arr ws) :
    zipAlong f (.entries :: path) v w = v := by
  cases w with
  | arr ws => exact absurd rfl (hw ws)
  | null | bool _ | int _ | double _ | str _ | obj _ => cases v <;> simp [zipAlong]

/-- The entry at a position that both lists have. -/
theorem getElem?_zipWith_append_drop {g : Json → Json → Json} {xs ws : List Json} {i : Nat}
    {y : Json} (hy : ws[i]? = some y) :
    (List.zipWith g xs ws ++ xs.drop ws.length)[i]? = xs[i]?.map (g · y) := by
  have hi : i < ws.length := (List.getElem?_eq_some_iff.mp hy).1
  -- where the first list is the shorter one nothing is appended
  by_cases hx : i < xs.length
  · rw [List.getElem?_append_left (by rw [List.length_zipWith]; omega), List.getElem?_zipWith, hy,
      List.getElem?_eq_getElem hx]
    rfl
  · have hdrop : xs.drop ws.length = [] := List.drop_eq_nil_of_le (by omega)
    rw [hdrop, List.append_nil, List.getElem?_zipWith, List.getElem?_eq_none (by omega)]
    rfl

theorem getElem?_zipWith_append_drop_of_none {g : Json → Json → Json} {xs ws : List Json} {i : Nat}
    (hy : ws[i]? = none) : (List.zipWith g xs ws ++ xs.drop ws.length)[i]? = xs[i]? := by
  have hi : ws.length ≤ i := List.getElem?_eq_none_iff.mp hy
  by_cases hx : ws.length ≤ xs.length
  · have hlen : (List.zipWith g xs ws).length = ws.length := by
      rw [List.length_zipWith]
      omega
    rw [List.getElem?_append_right (by omega), hlen, List.getElem?_drop]
    congr 1
    omega
  · have hdrop : xs.drop ws.length = [] := List.drop_eq_nil_of_le (by omega)
    rw [hdrop, List.append_nil, List.getElem?_eq_none (by rw [List.length_zipWith]; omega),
      List.getElem?_eq_none (by omega)]

/-- A walk whose steps change no part changes nothing. -/
theorem zipAlong_fixed {path : List Step} {v w : Json}
    (fixed : ∀ c d, Along path v w c d → f c d = c) : zipAlong f path v w = v := by
  -- by induction on the path; where a step leads nowhere there is nothing to change
  induction path generalizing v w with
  | nil => rw [zipAlong_nil]; exact fixed v w (.here v w)
  | cons step path ih =>
    cases step with
    | member k =>
      cases hx : v.get? k with
      | none => exact zipAlong_member_left hx
      | some x =>
        cases hy : w.get? k with
        | none => exact zipAlong_member_right hy
        | some y =>
          rw [zipAlong_member hx hy, ih fun c d h => fixed c d (.member hx hy h)]
          exact setMember_of_get? hx
    | entries =>
      by_cases hv : ∃ xs, v = .arr xs
      · by_cases hw : ∃ ws, w = .arr ws
        · obtain ⟨xs, rfl⟩ := hv
          obtain ⟨ws, rfl⟩ := hw
          rw [zipAlong_entries]
          congr 1
          apply List.ext_getElem?
          intro i
          cases hy : ws[i]? with
          | none => exact getElem?_zipWith_append_drop_of_none hy
          | some y =>
            rw [getElem?_zipWith_append_drop hy]
            cases hx : xs[i]? with
            | none => rfl
            | some x => exact congrArg some (ih fun c d h => fixed c d (.entry hx hy h))
        · exact zipAlong_entries_right fun ws h => hw ⟨ws, h⟩
      · exact zipAlong_entries_left fun xs h => hv ⟨xs, h⟩

/-- A walk from a value to itself stays, when a step from a part to itself does. -/
theorem zipAlong_self (self : ∀ c, f c c = c) (path : List Step) (v : Json) :
    zipAlong f path v v = v :=
  zipAlong_fixed fun c _ h => h.eq_of_self ▸ self c

/-- After a walk its path reaches the changed parts. -/
theorem along_zipAlong {path : List Step} {v w c d : Json}
    (h : Along path (zipAlong f path v w) w c d) : ∃ b, Along path v w b d ∧ c = f b d := by
  induction path generalizing v w with
  | nil =>
    rw [zipAlong_nil] at h
    cases h
    exact ⟨v, .here v _, rfl⟩
  | cons step path ih =>
    cases step with
    | member k =>
      cases h with
      | @member _ _ _ _ x' y _ _ hx' hy rest =>
        cases hx : v.get? k with
        | none =>
          -- then the walk left `v` as it is, which has no such member
          rw [zipAlong_member_left hx, hx] at hx'
          exact absurd hx' nofun
        | some x =>
          rw [zipAlong_member hx hy, get?_setMember, if_pos rfl] at hx'
          injection hx' with hx'
          subst hx'
          obtain ⟨b, hb, hc⟩ := ih rest
          exact ⟨b, .member hx hy hb, hc⟩
    | entries =>
      -- the path goes on through entries, so the walk came from a list
      generalize hz : zipAlong f (.entries :: path) v w = z at h
      cases h with
      | @entry i _ zs ws x' y _ _ hx' hy rest =>
        have hv : ∃ xs, v = .arr xs := by
          apply Classical.byContradiction
          intro hno
          rw [zipAlong_entries_left fun xs h => hno ⟨xs, h⟩] at hz
          exact hno ⟨zs, hz⟩
        obtain ⟨xs, rfl⟩ := hv
        rw [zipAlong_entries] at hz
        injection hz with hz
        rw [← hz, getElem?_zipWith_append_drop hy] at hx'
        obtain ⟨x, hx, hxx⟩ := Option.map_eq_some_iff.mp hx'
        subst hxx
        obtain ⟨b, hb, hc⟩ := ih rest
        exact ⟨b, .entry hx hy hb, hc⟩

/-- Covering outlasts a walk whose steps keep it. -/
theorem Covers.zipAlong (step : ∀ c d, Covers c d → Covers (f c d) d) (self : ∀ c, f c c = c)
    (path : List Step) {v w : Json} (h : Covers v w) : Covers (zipAlong f path v w) w := by
  induction path generalizing v w with
  | nil => rw [zipAlong_nil]; exact step v w h
  | cons s path ih =>
    cases s with
    | member k =>
      cases hy : w.get? k with
      | none => rw [zipAlong_member_right hy]; exact h
      | some y =>
        obtain ⟨x, hx, hxy⟩ := h.get? hy
        obtain ⟨ws, rfl⟩ := exists_obj_of_get? hy
        obtain ⟨ms, rfl, each⟩ := covers_obj_iff.mp h
        rw [zipAlong_member hx hy, covers_obj_iff]
        refine ⟨Table.insert ms k (Json.zipAlong f path x y), rfl, ?_⟩
        intro l z hz
        rw [Table.get?_insert]
        by_cases hkl : k = l
        · subst hkl
          have hyz : y = z := Option.some.inj (hy.symm.trans hz)
          subst hyz
          exact ⟨_, if_pos rfl, ih hxy⟩
        · -- other members are as before
          rw [if_neg hkl]
          exact each l z hz
    | entries =>
      by_cases hv : ∃ xs, v = .arr xs
      · by_cases hw : ∃ ws, w = .arr ws
        · obtain ⟨xs, rfl⟩ := hv
          obtain ⟨ws, rfl⟩ := hw
          by_cases hent : isEntryList ws = true
          · obtain ⟨ys, hys, length, each⟩ := (covers_entries_iff hent).mp h
            injection hys with hys
            subst hys
            rw [zipAlong_entries]
            refine .entries hent ?_ ?_
            · rw [List.length_append, List.length_zipWith, List.length_drop]
              omega
            · intro i c y hc hy
              rw [getElem?_zipWith_append_drop hy] at hc
              obtain ⟨x, hx, hxc⟩ := Option.map_eq_some_iff.mp hc
              rw [← hxc]
              exact ih (each i x y hx hy)
          · -- the lists are equal, and a walk along equal values stays
            have heq := h.eq_of_not_entries (by simpa using hent)
            rw [heq, zipAlong_self self]
            exact .refl _
        · rw [zipAlong_entries_right fun ws h => hw ⟨ws, h⟩]
          exact h
      · rw [zipAlong_entries_left fun xs h => hv ⟨xs, h⟩]
        exact h

/-! ## §4. Trimming -/

/-- A step that takes nothing away but members the desired part lacks. -/
structure Trims (f : Json → Json → Json) : Prop where
  keeps : ∀ c d k y, d.get? k = some y → (f c d).get? k = c.get? k
  drops : ∀ c d k, c.get? k = none → (f c d).get? k = none
  lists : ∀ c d xs, f c d = .arr xs → c = .arr xs
  covers : ∀ c d, Covers c d → Covers (f c d) d
  self : ∀ c, f c c = c

/-- What another path reaches after a walk that trims: what it reached before, or that
    part trimmed along the rest of the walk. -/
theorem Trims.along_zipAlong (hf : Trims f) {path : List Step} (walk : List Step) {v w c d : Json}
    (h : Along path (zipAlong f walk v w) w c d) :
    ∃ b, Along path v w b d ∧ (c = b ∨ ∃ rest, c = zipAlong f rest b d) := by
  -- by induction on the path, which the walk follows until the two part or one of them ends
  induction path generalizing walk v w with
  | nil =>
    cases h
    exact ⟨v, .here v _, .inr ⟨walk, rfl⟩⟩
  | cons step path ih =>
    cases step with
    | member k =>
      cases h with
      | @member _ _ _ _ x' y _ _ hx' hy rest =>
        -- the walk left the member alone, or went on inside it
        have stays : v.get? k = some x' →
            ∃ b, Along (.member k :: path) v w b d ∧ (c = b ∨ ∃ r, c = zipAlong f r b d) :=
          fun hx => ⟨c, .member hx hy rest, .inl rfl⟩
        cases walk with
        | nil =>
          rw [zipAlong_nil, hf.keeps v w k y hy] at hx'
          exact stays hx'
        | cons s walk =>
          cases s with
          | member l =>
            cases hu : v.get? l with
            | none =>
              rw [zipAlong_member_left hu] at hx'
              exact stays hx'
            | some u =>
              cases ht : w.get? l with
              | none =>
                rw [zipAlong_member_right ht] at hx'
                exact stays hx'
              | some t =>
                rw [zipAlong_member hu ht, get?_setMember] at hx'
                by_cases hlk : l = k
                · -- path and walk take the same member
                  subst hlk
                  have hty : t = y := Option.some.inj (ht.symm.trans hy)
                  subst hty
                  rw [if_pos rfl] at hx'
                  injection hx' with hx'
                  subst hx'
                  obtain ⟨b, hb, hc⟩ := ih walk rest
                  exact ⟨b, .member hu ht hb, hc⟩
                · rw [if_neg hlk] at hx'
                  exact stays hx'
          | entries =>
            have hw : ∀ ws, w ≠ .arr ws := by
              rintro ws rfl
              simp [Json.get?] at hy
            rw [zipAlong_entries_right hw] at hx'
            exact stays hx'
    | entries =>
      generalize hz : zipAlong f walk v w = z at h
      cases h with
      | @entry i _ zs ws x' y _ _ hx' hy rest =>
        have stays : v = .arr zs →
            ∃ b, Along (.entries :: path) v (.arr ws) b d ∧
              (c = b ∨ ∃ r, c = zipAlong f r b d) :=
          fun hv => ⟨c, hv ▸ .entry hx' hy rest, .inl rfl⟩
        cases walk with
        | nil =>
          rw [zipAlong_nil] at hz
          exact stays (hf.lists v (.arr ws) zs hz)
        | cons s walk =>
          cases s with
          | member l =>
            rw [zipAlong_member_right rfl] at hz
            exact stays hz
          | entries =>
            by_cases hv : ∃ xs, v = .arr xs
            · obtain ⟨xs, rfl⟩ := hv
              rw [zipAlong_entries] at hz
              injection hz with hz
              rw [← hz, getElem?_zipWith_append_drop hy] at hx'
              obtain ⟨x, hx, hxx⟩ := Option.map_eq_some_iff.mp hx'
              subst hxx
              obtain ⟨b, hb, hc⟩ := ih walk rest
              exact ⟨b, .entry hx hy hb, hc⟩
            · rw [zipAlong_entries_left fun xs h => hv ⟨xs, h⟩] at hz
              exact absurd ⟨zs, hz⟩ hv

/-- A member that is missing is still missing after trimming. -/
theorem Trims.get?_zipAlong_none (hf : Trims f) (walk : List Step) {b d : Json} {k : String}
    (h : b.get? k = none) : (zipAlong f walk b d).get? k = none := by
  cases walk with
  | nil => rw [zipAlong_nil]; exact hf.drops b d k h
  | cons s walk =>
    cases s with
    | member l =>
      cases hu : b.get? l with
      | none => rw [zipAlong_member_left hu]; exact h
      | some u =>
        cases ht : d.get? l with
        | none => rw [zipAlong_member_right ht]; exact h
        | some t =>
          have hlk : l ≠ k := by
            intro hlk
            subst hlk
            rw [h] at hu
            exact absurd hu nofun
          rw [zipAlong_member hu ht, get?_setMember, if_neg hlk]
          exact h
    | entries =>
      by_cases hb : ∃ xs, b = .arr xs
      · by_cases hd : ∃ ws, d = .arr ws
        · obtain ⟨xs, rfl⟩ := hb
          obtain ⟨ws, rfl⟩ := hd
          rw [zipAlong_entries]
          rfl
        · rw [zipAlong_entries_right fun ws h => hd ⟨ws, h⟩]
          exact h
      · rw [zipAlong_entries_left fun xs h => hb ⟨xs, h⟩]
        exact h

/-- A member that is as desired is still so after trimming. -/
theorem Trims.get?_zipAlong_of_eq (hf : Trims f) (walk : List Step) {b d : Json} {k : String}
    (h : b.get? k = d.get? k) : (zipAlong f walk b d).get? k = d.get? k := by
  cases hd : d.get? k with
  | none => exact hf.get?_zipAlong_none walk (h.trans hd)
  | some y =>
    have hb : b.get? k = some y := h.trans hd
    cases walk with
    | nil => rw [zipAlong_nil, hf.keeps b d k y hd]; exact hb
    | cons s walk =>
      cases s with
      | member l =>
        cases hu : b.get? l with
        | none => rw [zipAlong_member_left hu]; exact hb
        | some u =>
          cases ht : d.get? l with
          | none => rw [zipAlong_member_right ht]; exact hb
          | some t =>
            rw [zipAlong_member hu ht, get?_setMember]
            by_cases hlk : l = k
            · subst hlk
              have huy : u = y := Option.some.inj (hu.symm.trans hb)
              have hty : t = y := Option.some.inj (ht.symm.trans hd)
              rw [if_pos rfl, huy, hty, zipAlong_self hf.self]
            · rw [if_neg hlk]
              exact hb
      | entries =>
        have hbl : ∀ xs, b ≠ .arr xs := by
          rintro xs rfl
          simp [Json.get?] at hb
        rw [zipAlong_entries_left hbl]
        exact hb

end Converge.Json
